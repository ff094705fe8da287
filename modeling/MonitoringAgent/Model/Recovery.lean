import MonitoringAgent.Model.Writer

/-! # Recovery at open

Memory is re-derived from the file: the head from the tails, then the points log replayed in
order, each point applied only to a series whose last point is earlier, then a sweep at hub
now. -/

namespace MonitoringAgent.HubStore

open MonitoringAgent.Library

/-- Why the store does not open. -/
inductive OpenError where
  /-- A tail of no series. -/
  | tailOfNoSeries (id : SeriesId)
  /-- A tail that does not read back. -/
  | tail (id : SeriesId) (error : TailError)
  /-- A log entry that does not read back, or holds a value outside its series' domain. -/
  | logEntry (seq : ℕ)
  /-- A logged point of no series. -/
  | pointOfNoSeries (id : SeriesId)
  deriving Repr

namespace Core

/-- Puts a recorded series into the head. -/
def install (c : Core) (id : SeriesId) (record : SeriesRecord) (state : SeriesState) : Core :=
  c.addEntry record.key (.reopened id record state)

/-- The tails of `loadHead`, each series reopened from its own. -/
def loadTails (records : Table SeriesId SeriesRecord) (c : Core) :
    List (SeriesId × List UInt8) → Except OpenError Core
  | [] => .ok c
  | (id, bytes) :: tails =>
      match records.get? id with
      | none => .error (.tailOfNoSeries id)
      | some record =>
          match SeriesState.fromTail bytes with
          | .error e => .error (.tail id e)
          | .ok state => (c.install id record state).loadTails records tails

/-- The head: each series with a tail, reopened from it. -/
def loadHead (c : Core) (t : Tables) : Except OpenError Core := c.loadTails t.series t.tails.entries

/-- Applies one logged point, if its series' last point is earlier. -/
def replayPoint (records : Table SeriesId SeriesRecord) (seq : ℕ) (c : Core) (point : LoggedPoint) :
    Except OpenError Core :=
  match records.get? point.id with
  | none => .error (.pointOfNoSeries point.id)
  | some record =>
      let c := if c.index.contains point.id then c
        else c.install point.id record (.new record.kind)
      match record.kind.checkScaled point.value with
      | none => .error (.logEntry seq)
      | some value =>
          match c.head.get? record.key with
          | none => .ok c
          | some entry =>
              match entry.state.append point.ts value with
              | (.error _, _) => .ok c
              | (.ok sealed, state) =>
                  .ok (c.putEntry record.key { entry with state, dirty := true } sealed)

def replayEntry (records : Table SeriesId SeriesRecord) (c : Core) (entry : ℕ × List UInt8) :
    Except OpenError Core :=
  match decodeLogEntry entry.2 with
  | .error _ => .error (.logEntry entry.1)
  | .ok points => points.foldlM (replayPoint records entry.1) c

/-- Applies the points log in commit order. -/
def replay (c : Core) (t : Tables) : Except OpenError Core :=
  t.pointsLog.entries.foldlM (replayEntry t.series) c

end Core

/-- Memory re-derived from the file, before the sweep: `loadHead`, then `replay`. -/
def recover (t : Tables) : Except OpenError Core := do
  let c ← (Core.new t.meta.clock t.meta.nextId).loadHead t
  c.replay t

/-- Opens the file after a stop or a crash. -/
def Writer.«open» (t : Tables) (systemNow : ℕ) : Except OpenError Writer := do
  let c ← recover t
  let (now, c) := c.hubNow systemNow
  .ok (.new (c.sweep now) t t.meta.commitSeq)

end MonitoringAgent.HubStore
