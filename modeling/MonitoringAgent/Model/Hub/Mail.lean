import MonitoringAgent.Model.Hub.App

/-! # The mail intake

A report that arrives by mail: the receipt rules, its store in one transaction, what follows for a
system's newest report, and the sweep that marks overdue systems offline. -/

namespace MonitoringAgent.Hub

open MonitoringAgent.Library

/-! ### Reports -/

/-- How often an agent mails a report. -/
structure MailInterval where
  secs : ℕ
  inRange : 60 ≤ secs ∧ secs ≤ 86400
  deriving DecidableEq, Repr

/-- `try_from` a `u64`. -/
def MailInterval.ofSecs (secs : ℕ) : Option MailInterval :=
  if h : 60 ≤ secs ∧ secs ≤ 86400 then some ⟨secs, h⟩ else none

/-- One sample of a report, after the snapshot rule. -/
structure MailedSample where
  time : SnapshotTime
  snapshot : Snapshot
  info : Option AppState.ReportedInfo
  deriving DecidableEq

structure MailedAlert where
  id : String
  severity : String
  currentValue : Value
  message : String
  firedAt : String
  deriving DecidableEq, Repr

/-- A decoded report: at least one sample, oldest first. -/
structure MailReport where
  run : String
  seq : ℕ
  createdAt : SnapshotTime
  interval : MailInterval
  samples : List MailedSample
  samplesNonempty : samples ≠ []
  alerts : List MailedAlert
  round : Option ScrapeRound
  deriving DecidableEq

def MailReport.newestSample (report : MailReport) : MailedSample :=
  report.samples.getLast report.samplesNonempty

/-! ### The receipt rules -/

/-- A report older than this on the hub's clock is refused, and receipts older than this are
pruned. -/
def receiptWindowSecs : ℕ := 7 * 86400

/-- How far ahead of the hub's clock a report may be created. -/
def futureSlackSecs : ℕ := 5 * 60

/-- The margin for mail latency past three missed reports. -/
def overdueMarginSecs : ℕ := 15 * 60

/-- Why a report isn't fresh. -/
inductive Stale where
  | fromTheFuture
  | tooOld
  deriving DecidableEq, Repr

/-- Whether a report created at `createdAt` may be taken at `now`. -/
def fresh (createdAt now : SnapshotTime) : Except Stale Unit :=
  let age : ℤ := (now.seconds : ℤ) - createdAt.seconds
  if age < -futureSlackSecs then .error .fromTheFuture
  else if age > receiptWindowSecs then .error .tooOld
  else .ok ()

/-- Whether a report is its system's newest. -/
inductive Recency where
  /-- It updates the system's status, last seen, live metrics and shown round. -/
  | newest
  /-- Delivered late or out of order: it adds points and alert records only. -/
  | backfill
  deriving DecidableEq, Repr

def recency (createdAt : SnapshotTime) (previousNewest : Option SnapshotTime) : Recency :=
  match previousNewest with
  | some newest => if createdAt.seconds < newest.seconds then .backfill else .newest
  | none => .newest

inductive MailPresence where
  | onTime
  | overdue
  deriving DecidableEq, Repr

/-- A mail system's presence at `now`, from its newest current receipt. -/
def mailStatus (newest : Option (SnapshotTime × MailInterval)) (now : SnapshotTime) :
    MailPresence :=
  match newest with
  | none => .overdue
  | some (reportedAt, interval) =>
      let limit : ℤ := 3 * interval.secs + overdueMarginSecs
      if (now.seconds : ℤ) - reportedAt.seconds > limit then .overdue else .onTime

/-! ### The transaction -/

/-- What to write for one report. -/
structure MailWrite where
  systemId : SystemId
  /-- The row registered when the id is new. -/
  system : SystemInfo
  receipt : MailReceipt
  snapshots : List (Snapshot × SnapshotTime)
  /-- Written only when the report is its system's newest. -/
  status : StatusUpdate
  alerts : List AlertRecord
  now : SnapshotTime
  pruneBefore : SnapshotTime

inductive MailStored where
  | stored (recency : Recency) (expired : ℕ) (newest : Option (Snapshot × SnapshotTime))
  /-- Its run and seq were already accepted, or retired: nothing written. -/
  | duplicate
  /-- The id belongs to a pushed or polled system: nothing written. -/
  | transportMismatch
  deriving DecidableEq

namespace Database

/-- The system's receipts that no delete retired. -/
def currentReceipts (db : Database) (system : SystemId) : List MailReceipt :=
  db.mailReceipts.filter fun r => r.systemId = system ∧ r.retired = false

/-- `MAX(created_at)` of the current receipts. -/
def maxCreatedAt (db : Database) (system : SystemId) : Option ℕ :=
  ((db.currentReceipts system).map fun r => r.createdAt.seconds).max?

def newestCurrentReceipt (db : Database) (system : SystemId) : Option SnapshotTime :=
  (db.maxCreatedAt system).bind SnapshotTime.ofSecs

/-- Inserts the receipt; none when its run and seq were already there, retired or not. A seq past
`i64::MAX` is no column value. -/
def insertReceipt (db : Database) (receipt : MailReceipt) : Except DbError (Option Database) :=
  if receipt.seq < 2 ^ 63 then
    if db.mailReceipts.any fun r =>
        r.systemId = receipt.systemId ∧ r.run = receipt.run ∧ r.seq = receipt.seq then
      .ok none
    else .ok (some { db with mailReceipts := db.mailReceipts ++ [receipt] })
  else .error .dbError

/-- Every sample's points; how many were past their retention, and the newest sample. -/
def storeSamples (db : Database) (system : SystemId) (snapshots : List (Snapshot × SnapshotTime))
    (now : SnapshotTime) : ℕ × Option (Snapshot × SnapshotTime) × Database :=
  snapshots.foldl (fun (expired, _, db) (snapshot, time) =>
    let (left, db) := db.storeUnexpiredPoints system snapshot time (some now)
    (expired + left, some (snapshot, time), db)) (0, none, db)

/-- Deletes the receipts created before `before`: retired ones all, current ones except the
system's newest. -/
def pruneReceipts (db : Database) (system : SystemId) (before : SnapshotTime) : Database :=
  let newest := db.maxCreatedAt system
  { db with
    mailReceipts := db.mailReceipts.filter fun r =>
      ¬(r.systemId = system ∧ r.createdAt.seconds < before.seconds ∧
        (r.retired = true ∨ newest.any (r.createdAt.seconds < ·))) }

/-- Stores one report in one transaction: what does not commit leaves the tables as they were.
`fails` says whether SQLite refuses a statement or the commit. -/
def storeMailReport (db : Database) (write : MailWrite) (decide : Option SnapshotTime → Recency)
    (fails : Bool) : Except DbError (MailStored × Database) :=
  if fails then .error .dbError
  else
    let known := db.systems.get? write.systemId
    if known.any (·.url ≠ write.system.url) then .ok (.transportMismatch, db)
    else do
      let tx := if known.isNone then
          { db with systems := db.systems.insert write.systemId write.system }
        else db
      let recency := decide (tx.newestCurrentReceipt write.systemId)
      match ← tx.insertReceipt write.receipt with
      | none => .ok (.duplicate, db)
      | some tx =>
          let (expired, newest, tx) := tx.storeSamples write.systemId write.snapshots write.now
          let tx := if recency = .newest then tx.writeStatus write.systemId write.status else tx
          let tx ← write.alerts.foldlM insertAlert tx
          .ok (.stored recency expired newest, tx.pruneReceipts write.systemId write.pruneBefore)

end Database

/-! ### Ingestion -/

/-- What became of an accepted message. -/
inductive Ingested where
  | stored (recency : Recency) (expired : ℕ)
  | duplicate
  deriving DecidableEq, Repr

/-- Why a message was refused. -/
inductive MessageRefusal where
  | notAMessage
  /-- The sealed report doesn't open. -/
  | «open»
  /-- What opened is no report. -/
  | report
  | stale (why : Stale)
  | transportMismatch
  /-- The database failed; nothing was stored. -/
  | store
  deriving DecidableEq, Repr

/-- One alert record per incident, keyed by the system's id and the incident's. -/
def alertRecords (system : SystemId) (report : MailReport) (now : SnapshotTime) :
    List AlertRecord :=
  report.alerts.map fun alert =>
    { id := system ++ "_" ++ alert.id
      systemId := system
      systemName := system
      severity := alert.severity
      message := alert.message
      currentValue := alert.currentValue
      firedAt := alert.firedAt
      storedAt := now.seconds
      acknowledged := false }

def mailWrite (system : SystemId) (report : MailReport) (now : SnapshotTime) : MailWrite where
  systemId := system
  system := .registered system.defaultName mailUrl
  receipt := ⟨system, report.run, report.seq, report.createdAt, report.interval.secs, now, false⟩
  snapshots := report.samples.map fun sample => (sample.snapshot, sample.time)
  status := .afterSnapshot (some (.reportedAt report.createdAt))
  alerts := alertRecords system report now
  now := now
  pruneBefore := now.cutoff receiptWindowSecs

/-- What SQLite refuses of one ingestion. -/
structure IngestFaults where
  transaction : Bool := false
  fill : AppState.FillFaults := {}
  round : Bool := false
  deriving DecidableEq, Repr

namespace AppState

/-- The newest report's scrape round, if it has one. A fresh pace never limits it. -/
def storeMailedRound (app : AppState) (system : SystemId) (report : MailReport) (arrival : Arrival)
    (fails : Bool) : AppState :=
  match report.round with
  | none => app
  | some round =>
      if fails then app else (app.storeRound system round (.full Hub.pace arrival.now) arrival).2

/-- The newest report's registry fill and scrape round. -/
def afterNewest (app : AppState) (system : SystemId) (report : MailReport) (arrival : Arrival)
    (faults : IngestFaults) : AppState :=
  let app := match report.newestSample.info with
    | none => app
    | some info => { app with db := fillRegistry app.db system info faults.fill }
  app.storeMailedRound system report arrival faults.round

/-- Stores an opened, fresh report, its live metrics under the database mutex, then, for the
system's newest, what follows. -/
def storeReport (app : AppState) (system : SystemId) (report : MailReport) (now : SnapshotTime)
    (instant : Instant) (faults : IngestFaults) : Except MessageRefusal Ingested × AppState :=
  match app.db.storeMailReport (mailWrite system report now) (recency report.createdAt)
      faults.transaction with
  | .error _ => (.error .store, app)
  | .ok (.duplicate, db) => (.ok .duplicate, { app with db })
  | .ok (.transportMismatch, db) => (.error .transportMismatch, { app with db })
  | .ok (.stored .backfill expired _, db) => (.ok (.stored .backfill expired), { app with db })
  | .ok (.stored .newest expired newest, db) =>
      let app : AppState := { app with db }
      let app := match newest with
        | none => app
        | some (snapshot, time) => app.keepLiveMetrics system snapshot time
      (.ok (.stored .newest expired), app.afterNewest system report ⟨instant, now.seconds⟩ faults)

/-- Ingests one message at `now` (unix seconds on the hub's clock). `opened` is what its armour,
its seal and its report decode to. -/
def ingestMessage (app : AppState) (opened : Except MessageRefusal (SystemId × MailReport))
    (now : ℕ) (instant : Instant) (faults : IngestFaults) :
    Except MessageRefusal Ingested × AppState :=
  match opened with
  | .error refusal => (.error refusal, app)
  | .ok (system, report) =>
      match SnapshotTime.ofSecs now with
      | none => (.error .store, app)
      | some now =>
          match fresh report.createdAt now with
          | .error why => (.error (.stale why), app)
          | .ok () => app.storeReport system report now instant faults

end AppState

/-! ### The overdue sweep -/

/-- One mail system as the sweep reads it: its newest current receipt, if any. -/
structure MailPresenceRow where
  id : SystemId
  status : SystemStatus
  enabled : Bool
  newest : Option (SnapshotTime × MailInterval)
  deriving DecidableEq, Repr

namespace Database

/-- The receipt that `ORDER BY created_at DESC LIMIT 1` takes: of equal ones, the last. -/
def newestReceipt (db : Database) (system : SystemId) : Option MailReceipt :=
  (db.currentReceipts system).foldl (fun newest r =>
    match newest with
    | none => some r
    | some n => if n.createdAt.seconds ≤ r.createdAt.seconds then some r else some n) none

/-- Every mail system's status, `enabled` and newest current receipt. -/
def mailPresence (db : Database) : List MailPresenceRow :=
  db.systems.entries.filterMap fun (id, system) =>
    if system.url = mailUrl then
      some ⟨id, system.status, system.enabled, do
        let receipt ← db.newestReceipt id
        let interval ← MailInterval.ofSecs receipt.intervalSecs
        some (receipt.createdAt, interval)⟩
    else none

/-- Marks a mail system offline, only if it isn't offline yet and its newest current receipt is
still `newest`; whether the row changed. -/
def markMailOverdue (db : Database) (id : SystemId) (newest : Option SnapshotTime)
    (lastError : String) : Bool × Database :=
  if (db.systems.get? id).any (·.status ≠ .offline) ∧
      db.maxCreatedAt id = newest.map SnapshotTime.seconds then
    (true, db.updateSystem id fun system =>
      { system with status := .offline, lastError := some lastError })
  else (false, db)

end Database

/-- The error an overdue marking writes. -/
def overdueError : String := "mail overdue"

/-- Whether the sweep marks `row` offline: enabled, not offline yet, and overdue. -/
def isOverdue (row : MailPresenceRow) (now : SnapshotTime) : Bool :=
  (match row.status with
    | .offline => false
    | .online | .unknown => row.enabled) && mailStatus row.newest now = .overdue

/-- Where a pass of the sweep stands. -/
structure OverduePass where
  now : SnapshotTime
  /-- The system just marked, its live metrics not evicted yet. -/
  evicting : Option SystemId
  /-- The rows still to look at. -/
  rows : List MailPresenceRow

namespace AppState

/-- The read a pass starts with. -/
def readPresence (app : AppState) (now : SnapshotTime) : OverduePass :=
  ⟨now, none, app.db.mailPresence⟩

/-- The next lock a pass takes: the eviction of the system it marked, or the marking of its next
row. `fails` says whether SQLite refuses the marking, which ends the pass. -/
def overdueStep (app : AppState) (pass : OverduePass) (fails : Bool) : AppState × OverduePass :=
  match pass.evicting, pass.rows with
  | some id, _ => (app.evictLiveMetrics id, { pass with evicting := none })
  | none, [] => (app, pass)
  | none, row :: rows =>
      if isOverdue row pass.now then
        if fails then (app, { pass with rows := [] })
        else
          match app.db.markMailOverdue row.id (row.newest.map Prod.fst) overdueError with
          | (true, db) => ({ app with db }, ⟨pass.now, some row.id, rows⟩)
          | (false, db) => ({ app with db }, { pass with rows })
      else (app, { pass with rows })

end AppState

end MonitoringAgent.Hub
