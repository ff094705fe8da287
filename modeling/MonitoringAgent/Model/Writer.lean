import MonitoringAgent.Model.Ingest

/-! # The writer thread's group commit

One transaction holds the interval's points log entry, the chunks sealed in it, the tails due
and the clock. The open transaction is the tables as it would leave them; a commit makes them
the file's, and a crash leaves the file's as they were. -/

namespace MonitoringAgent.HubStore

open MonitoringAgent.Library

/-- One rotation of the tail flush: every series' tail written once in it. -/
structure Rotation where
  startedSeq : ℕ
  queue : List SeriesId
  done : ℕ
  deriving DecidableEq, Repr

namespace Rotation

def start (seq : ℕ) (ids : List SeriesId) : Rotation := ⟨seq, ids.mergeSort (· ≤ ·), 0⟩

/-- The series due by now. `target` is the share of the queue that the elapsed share of the
period covers, which the code computes from the monotonic clock. -/
def due (r : Rotation) (target : ℕ) : List SeriesId × Rotation :=
  let target := min target r.queue.length
  ((r.queue.take target).drop (min r.done target), { r with done := max r.done target })

def finished (r : Rotation) : Bool := r.done ≥ r.queue.length

end Rotation

/-- Which tails a commit writes beside the ones that sealed. -/
inductive Flush where
  /-- The rotation's slice due since the previous commit. -/
  | rotation (target : ℕ)
  /-- Every dirty tail (a close). -/
  | all

/-- The writer: its core, the file's tables, the open transaction's, and what waits for the
next commit. -/
structure Writer where
  core : Core
  /-- The tables as last committed. -/
  db : Tables
  /-- The open transaction's tables; none until one is begun. -/
  txn : Option Tables
  commitSeq : ℕ
  /-- Log entries below this sequence are no longer needed: every tail was written since. -/
  logBound : ℕ
  rotation : Rotation
  /-- Series whose sealed chunks the commit in progress holds. -/
  committing : Finset SeriesId

/-- The key of a sealed chunk in `chunks`. -/
def Sealed.chunkKey (chunk : Sealed) (id : SeriesId) : ChunkKey :=
  ⟨chunk.tier, chunk.span, id, chunk.seq⟩

namespace Writer

def new (core : Core) (db : Tables) (commitSeq : ℕ) : Writer :=
  ⟨core, db, none, commitSeq, 0, .start commitSeq core.index.keys, ∅⟩

/-- The interval's transaction, begun when first needed. -/
def openTxn (w : Writer) : Tables := w.txn.getD w.db

/-- The interval's points go into the log under the commit's sequence. -/
def writeLog (w : Writer) (t : Tables) : Tables :=
  if w.core.points.isEmpty then t
  else { t with pointsLog := t.pointsLog.insert w.commitSeq (encodeLogEntry w.core.points) }

/-- The chunks sealed in the interval go into `chunks`. -/
def writeChunks (t : Tables) (sealed : List (SeriesId × Sealed)) : Tables :=
  { t with
    chunks := sealed.foldl (fun chunks (id, chunk) => chunks.insert (chunk.chunkKey id) chunk.bytes)
      t.chunks }

/-- A series' tail and record, if it has something to write; the series is then clean. -/
def takeTail (c : Core) (key : SeriesKey) (touched : Bool) :
    Option ((List UInt8 × SeriesRecord) × Core) := do
  let entry ← (c.head.get? key).filter fun e => e.dirty || touched
  some ((entry.state.toTail, ⟨key, entry.state.kind, entry.lastSpans⟩),
    { c with head := c.head.insert key { entry with dirty := false } })

/-- One round of `writeTails`: the tail and record of one series, and its key if it is new. -/
def writeTail (touched newSeries : Finset SeriesId) (ct : Core × Tables) (id : SeriesId) :
    Core × Tables :=
  match ct.1.index.get? id with
  | none => ct
  | some key =>
      match takeTail ct.1 key (id ∈ touched) with
      | none => ct
      | some ((tail, record), c) =>
          (c, { ct.2 with
            tails := ct.2.tails.insert id tail
            series := ct.2.series.insert id record
            seriesKey := if id ∈ newSeries then ct.2.seriesKey.insert key id else ct.2.seriesKey })

/-- The ids whose tails a flush makes due, and the rotation after it. -/
def flushIds (w : Writer) : Flush → List SeriesId × Rotation
  | .rotation target => w.rotation.due target
  | .all => (w.core.index.keys, w.rotation)

/-- The tails and records of series that sealed or are new, and the tails due. -/
def writeTails (w : Writer) (t : Tables) (flush : Flush) : Writer × Tables :=
  let (due, rotation) := w.flushIds flush
  let touched := w.core.touched
  let newSeries := w.core.newSeries
  let ids := (touched ∪ due.toFinset).sort (· ≤ ·)
  let (core, t) := ids.foldl (writeTail touched newSeries)
    ({ w.core with touched := ∅, newSeries := ∅ }, t)
  ({ w with core, rotation }, t)

/-- Log entries below the bound go. -/
def truncateLog (w : Writer) (t : Tables) : Tables :=
  if w.logBound > 0 then { t with pointsLog := t.pointsLog.filter fun seq _ => w.logBound ≤ seq }
  else t

/-- Everything a commit holds beside the catalog writes and the retention step, and the
buffers it empties. -/
def writeInterval (w : Writer) (t : Tables) (flush : Flush) : Writer × Tables :=
  let t := w.writeLog t
  let t := writeChunks t w.core.sealed
  let w := { w with
    committing := w.committing ∪ (w.core.sealed.map Prod.fst).toFinset
    core := { w.core with points := [], sealed := [] } }
  let (w, t) := w.writeTails t flush
  let t := w.truncateLog t
  (w, { t with
    «meta» := { t.meta with
      clock := w.core.clock, nextId := w.core.nextId, commitSeq := w.commitSeq + 1 } })

/-- Drops a series' pending copies: its chunks committed. -/
def clearPending (c : Core) (id : SeriesId) : Core :=
  match c.index.get? id with
  | none => c
  | some key =>
      match c.head.get? key with
      | none => c
      | some entry => { c with head := c.head.insert key { entry with pending := [] } }

/-- After a commit: its sequence, the pending copies and the rotation move on. -/
def afterCommit (w : Writer) : Writer :=
  let commitSeq := w.commitSeq + 1
  let core := (w.committing.sort (· ≤ ·)).foldl clearPending w.core
  let w := { w with commitSeq, core, committing := ∅ }
  if w.rotation.finished then
    { w with
      logBound := w.rotation.startedSeq
      rotation := .start w.commitSeq w.core.index.keys }
  else w

/-- Commits the interval. -/
def commit (w : Writer) (flush : Flush) : Writer :=
  let (w, t) := w.writeInterval w.openTxn flush
  { w with db := t, txn := none }.afterCommit

/-- Appends points at hub time. -/
def append (w : Writer) (system : List UInt8) (generation : ℕ) (points : List IncomingPoint)
    (systemNow : ℕ) : Except StoreError (AppendReport × Writer) := do
  let txn := w.openTxn
  let («at», core) := w.core.hubNow systemNow
  let (report, core) ← core.appendPoints txn system generation points «at»
  .ok (report, { w with core, txn := some txn })

/-- The sweep at hub time. -/
def sweep (w : Writer) (systemNow : ℕ) : Writer :=
  let (now, core) := w.core.hubNow systemNow
  { w with core := core.sweep now }

end Writer

end MonitoringAgent.HubStore
