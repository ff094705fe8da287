import MonitoringAgent.Library.Table
import MonitoringAgent.Model.Hub.Applications

/-! # The hub's database

The tables, and the statements the hub runs on them, each under the connection mutex. Foreign keys
are enforced: a point or an alert record of no system is refused. A call that fails leaves the
tables as they were. -/

namespace MonitoringAgent.Hub

open MonitoringAgent.Library

/-- A NaN, which SQLite stores as `NULL`. -/
def isNaN (value : Value) : Bool :=
  value.extractLsb' 23 8 = 0xff#8 ∧ value.extractLsb' 0 23 ≠ 0#23

/-- What the snapshot rule kept of a report: its metric points, none of them a NaN. -/
structure Snapshot where
  metricPoints : List (String × Value)
  notNaN : ∀ p ∈ metricPoints, isNaN p.2 = false
  deriving DecidableEq

/-! ### The tables -/

structure MetricRow where
  rowid : ℕ
  systemId : SystemId
  metric : String
  value : Value
  timestamp : ℕ
  deriving DecidableEq, Repr

structure AlertRecord where
  id : String
  systemId : SystemId
  systemName : String
  severity : String
  message : String
  currentValue : Value
  firedAt : String
  /-- The column's ISO time, by its seconds. -/
  storedAt : ℕ
  acknowledged : Bool
  deriving DecidableEq, Repr

/-- A series' retention; none where the column holds no integer. -/
structure RetentionRow where
  systemId : SystemId
  metric : String
  retentionSecs : Option ℤ
  deriving DecidableEq, Repr

/-- One accepted mail report's receipt; its system, run and seq are the primary key. -/
structure MailReceipt where
  systemId : SystemId
  run : String
  seq : ℕ
  createdAt : SnapshotTime
  intervalSecs : ℕ
  receivedAt : SnapshotTime
  /-- Set when the system is deleted. -/
  retired : Bool
  deriving DecidableEq, Repr

structure Database where
  systems : Table SystemId SystemInfo
  metrics : List MetricRow
  /-- The row id the next point takes. -/
  nextRowid : ℕ
  /-- By the record's id. -/
  alerts : Table String AlertRecord
  metricRetention : List RetentionRow
  mailReceipts : List MailReceipt

/-- SQLite refused a statement. -/
inductive DbError where
  | dbError
  deriving DecidableEq, Repr

namespace Database

def new : Database := ⟨.empty, [], 1, .empty, [], []⟩

/-! ### Systems -/

def systemExists (db : Database) (id : SystemId) : Bool := db.systems.contains id

/-- `UPDATE systems SET … WHERE id = …`. -/
def updateSystem (db : Database) (id : SystemId) (f : SystemInfo → SystemInfo) : Database :=
  match db.systems.get? id with
  | none => db
  | some system => { db with systems := db.systems.insert id (f system) }

/-- Writes a system's status, keeping its `lastSeen` when none is given. -/
def writeStatus (db : Database) (id : SystemId) (update : StatusUpdate) : Database :=
  db.updateSystem id fun system =>
    { system with
      status := update.status
      lastSeen := update.lastSeen.getD system.lastSeen
      lastError := update.error }

def updateSystemStatus (db : Database) (id : SystemId) (status : SystemStatus) (lastSeen : LastSeen)
    (error : Option String) : Database :=
  db.updateSystem id fun system => { system with status, lastSeen, lastError := error }

/-- The system info a row holds, beside its memory capacity. -/
structure InfoColumns where
  os : Option String
  hostname : Option String
  kernel : Option String
  cpuModel : Option String
  cpuCores : Option ℕ
  deriving DecidableEq, Repr

def updateSystemInfo (db : Database) (id : SystemId) (info : InfoColumns) : Database :=
  db.updateSystem id fun system =>
    { system with
      os := info.os
      hostname := info.hostname
      kernel := info.kernel
      cpuModel := info.cpuModel
      cpuCores := info.cpuCores }

def updateMemoryCapacity (db : Database) (id : SystemId) (capacity : MemoryCapacity) : Database :=
  db.updateSystem id fun system =>
    { system with
      totalMemoryDisplay := some capacity.display
      totalMemoryBytes := some capacity.bytes }

/-- What a `PUT` changes of a system's row. -/
structure ConfigUpdate where
  name : Option String := none
  url : Option String := none
  token : Option String := none
  pollIntervalSecs : Option ℕ := none
  enabled : Option Bool := none
  deriving DecidableEq, Repr

def updateSystemConfig (db : Database) (id : SystemId) (update : ConfigUpdate) : Database :=
  if update = {} then db
  else
    db.updateSystem id fun system =>
      { system with
        name := update.name.getD system.name
        url := update.url.getD system.url
        token := update.token.getD system.token
        pollIntervalSecs := update.pollIntervalSecs.getD system.pollIntervalSecs
        enabled := update.enabled.getD system.enabled }

/-- `update_system_config` with a new name only. -/
def updateName (db : Database) (id : SystemId) (name : String) : Database :=
  db.updateSystemConfig id { name := some name }

/-- How a known id's url compares with the registering one's. -/
inductive KnownUrl where
  | same
  | mail
  | other
  deriving DecidableEq, Repr

inductive Registration where
  | inserted
  | known (url : KnownUrl)
  deriving DecidableEq, Repr

/-- Registers a system unless a row with its id exists. -/
def insertSystemIfAbsent (db : Database) (id : SystemId) (system : SystemInfo) :
    Registration × Database :=
  match db.systems.get? id with
  | some known =>
      (.known (if known.url = system.url then .same else if known.url = mailUrl
        then .mail else .other), db)
  | none => (.inserted, { db with systems := db.systems.insert id system })

/-- Deletes a system and its history, and retires its mail receipts. -/
def deleteSystem (db : Database) (id : SystemId) : Database where
  systems := db.systems.erase id
  metrics := db.metrics.filter (·.systemId ≠ id)
  nextRowid := db.nextRowid
  alerts := db.alerts.filter fun _ alert => alert.systemId ≠ id
  metricRetention := db.metricRetention.filter (·.systemId ≠ id)
  mailReceipts := db.mailReceipts.map fun r => if r.systemId = id
    then { r with retired := true } else r

/-! ### Alerts -/

/-- `INSERT OR IGNORE`: a NaN is `NULL` in a column that holds none, and a known id is kept, so
either is passed over; a record of no system is refused. -/
def insertAlert (db : Database) (alert : AlertRecord) : Except DbError Database :=
  if isNaN alert.currentValue then .ok db
  else if db.alerts.contains alert.id then .ok db
  else if db.systemExists alert.systemId then
    .ok { db with alerts := db.alerts.insert alert.id alert }
  else .error .dbError

def acknowledgeAlert (db : Database) (alertId : String) : Database :=
  match db.alerts.get? alertId with
  | none => db
  | some alert => { db with alerts := db.alerts.insert alertId { alert with acknowledged := true } }

/-! ### Points -/

def insertPoint (db : Database) (system : SystemId) (point : String × Value) (timestamp : ℕ) :
    Database :=
  { db with
    metrics := db.metrics ++ [⟨db.nextRowid, system, point.1, point.2, timestamp⟩]
    nextRowid := db.nextRowid + 1 }

def defaultRetentionSecs : ℕ := 86400

/-- A metric's retention from its stored value: no row or a negative value is a day. -/
def snapshotRetention (stored : Option ℤ) : ℕ :=
  match stored with
  | some secs => if 0 ≤ secs then secs.toNat else defaultRetentionSecs
  | none => defaultRetentionSecs

/-- The stored retention of a series, if its row holds an integer. -/
def selectRetention (db : Database) (system : SystemId) (metric : String) : Option ℤ :=
  (db.metricRetention.find? fun r => r.systemId = system ∧
    r.metric = metric).bind RetentionRow.retentionSecs

/-- The most expired points of its series one point prunes. -/
def prunePerPoint : ℕ := 16

/-- Deletes the oldest points of a series older than the cutoff, up to `prunePerPoint`. -/
def pruneOldest (db : Database) (system : SystemId) (metric : String) (cutoff : ℕ) : Database :=
  let expired := db.metrics.filter fun r =>
    r.systemId = system ∧ r.metric = metric ∧ r.timestamp < cutoff
  let oldest := ((expired.mergeSort fun a b => a.timestamp ≤ b.timestamp).take prunePerPoint).map
    MetricRow.rowid
  { db with metrics := db.metrics.filter (·.rowid ∉ oldest) }

/-- One point of a snapshot: left out when past its series' retention at `now`, else inserted and
its series pruned. -/
def storePoint (db : Database) (system : SystemId) (time : SnapshotTime) (now : Option SnapshotTime)
    (point : String × Value) : Option Database :=
  let retentionSecs := snapshotRetention (db.selectRetention system point.1)
  if now.any fun now => time.seconds < (now.cutoff retentionSecs).seconds then none
  else some ((db.insertPoint system point time.seconds).pruneOldest system point.1
    (time.cutoff retentionSecs).seconds)

/-- Each point of the snapshot stored, and how many were past their retention. -/
def storeUnexpiredPoints (db : Database) (system : SystemId) (snapshot : Snapshot)
    (time : SnapshotTime) (now : Option SnapshotTime) : ℕ × Database :=
  snapshot.metricPoints.foldl (fun (expired, db) point =>
    match db.storePoint system time now point with
    | none => (expired + 1, db)
    | some db => (expired, db)) (0, db)

/-- The snapshot's points and the system's status, in one transaction; none when the system's row
is gone. -/
def storeSnapshot (db : Database) (system : SystemId) (snapshot : Snapshot) (time : SnapshotTime)
    (status : StatusUpdate) : Option Database :=
  if db.systemExists system then
    some ((db.storeUnexpiredPoints system snapshot time none).2.writeStatus system status)
  else none

inductive RoundStored where
  | stored (pace : TokenBucket)
  | duplicate
  | tooSoon
  | systemGone
  deriving DecidableEq, Repr

/-- A round's points, if the system's row exists and `decide` admits it. -/
def storeRound (db : Database) (system : SystemId) (points : List (String × Value)) (receivedAt : ℕ)
    (decide : Unit → Admission) : RoundStored × Database :=
  if db.systemExists system then
    match decide () with
    | .accept pace => (.stored pace, points.foldl (·.insertPoint system · receivedAt) db)
    | .duplicate => (.duplicate, db)
    | .tooSoon => (.tooSoon, db)
  else (.systemGone, db)

end Database

end MonitoringAgent.Hub
