import MonitoringAgent.Model.Hub.Database
import MonitoringAgent.Model.Hub.Presence

/-! # The hub's state

The database, and what the hub holds in memory of each system: its live metrics, its applications
and its push presence. Each function is one hold of the locks it takes; the live state is written
under the database mutex wherever a store writes both. -/

namespace MonitoringAgent.Hub

open MonitoringAgent.Library

/-- A system's last stored snapshot. -/
structure LiveMetrics where
  snapshot : Snapshot
  time : SnapshotTime
  deriving DecidableEq

structure AppState where
  db : Database
  liveMetrics : Table SystemId LiveMetrics
  liveApplications : Table SystemId SystemApplications
  presence : PushPresence

namespace AppState

def new : AppState := ⟨.new, .empty, .empty, .new⟩

/-! ### Live metrics -/

def evictLiveMetrics (app : AppState) (system : SystemId) : AppState :=
  { app with liveMetrics := app.liveMetrics.erase system }

/-- Moves a stored snapshot into the system's live metrics. -/
def keepLiveMetrics (app : AppState) (system : SystemId) (snapshot : Snapshot)
    (time : SnapshotTime) : AppState :=
  { app with liveMetrics := app.liveMetrics.insert system ⟨snapshot, time⟩ }

inductive SnapshotStored where
  | stored
  /-- The system's row is gone: nothing was written. -/
  | systemGone
  deriving DecidableEq, Repr

/-- Stores a snapshot, marks the system online and keeps its live metrics, under the database
mutex. -/
def storeSnapshot (app : AppState) (system : SystemId) (snapshot : Snapshot) (time : SnapshotTime)
    (lastSeen : Option LastSeen) : SnapshotStored × AppState :=
  match app.db.storeSnapshot system snapshot time (.afterSnapshot lastSeen) with
  | none => (.systemGone, app)
  | some db => (.stored, { app with db }.keepLiveMetrics system snapshot time)

/-! ### Scrape rounds -/

/-- When a round reached the hub: the instant pacing uses, and the second it is stored at. -/
structure Arrival where
  now : Instant
  receivedAt : ℕ
  deriving DecidableEq, Repr

/-- Remembers an accepted round and shows it. -/
def hold (app : AppState) (system : SystemId) (round : ScrapeRound) (receivedAt : ℕ)
    (keep : SystemApplications → SystemApplications) : AppState :=
  let entry := (app.liveApplications.get? system).getD {}
  { app with
    liveApplications := app.liveApplications.insert system
      (keep { entry with
        recent := RecentRounds.remember entry.recent round
        shown := some ⟨round, receivedAt⟩ }) }

/-- The admission and store both sources share: `paceOf` reads the source's pace when deciding,
`keep` records the spent one when the round is held. -/
def store (app : AppState) (system : SystemId) (round : ScrapeRound) (arrival : Arrival)
    (paceOf : Option SystemApplications → TokenBucket)
    (keep : SystemApplications → TokenBucket → SystemApplications) :
    Database.RoundStored × AppState :=
  let entry := app.liveApplications.get? system
  let recent : RecentRounds := (entry.map SystemApplications.recent).getD []
  match app.db.storeRound system round.points arrival.receivedAt
      (fun _ => admitRound recent (paceOf entry) round arrival.now) with
  | (.stored spent, db) => (.stored spent, { app with db }.hold system round arrival.receivedAt
      (keep · spent))
  | (other, db) => (other, { app with db })

/-- Stores a pushed round under its connection's own pace. -/
def storeRound (app : AppState) (system : SystemId) (round : ScrapeRound) (pace : TokenBucket)
    (arrival : Arrival) : Database.RoundStored × AppState :=
  app.store system round arrival (fun _ => pace) fun entry _ => entry

/-- Stores a polled round under its system's poll pace. -/
def storePolledRound (app : AppState) (system : SystemId) (round : ScrapeRound)
    (arrival : Arrival) : Database.RoundStored × AppState :=
  app.store system round arrival
    (fun entry => (entry.bind SystemApplications.pollPace).getD (.full Hub.pace arrival.now))
    fun entry spent => { entry with pollPace := some spent }

/-- The agent has no round: the recent rounds and the poll pace stay. -/
def forgetShownRound (app : AppState) (system : SystemId) : AppState :=
  match app.liveApplications.get? system with
  | none => app
  | some entry =>
      { app with liveApplications :=
        app.liveApplications.insert system { entry with shown := none } }

/-- A refused polled round: logged as a warning at most once an hour per system. -/
def logRefusedRound (app : AppState) (system : SystemId) (now : Instant) : AppState :=
  let entry := (app.liveApplications.get? system).getD {}
  let entry := if hourlyWarning entry.pollRefusalWarnedAt now then
      { entry with pollRefusalWarnedAt := some now }
    else entry
  { app with liveApplications := app.liveApplications.insert system entry }

/-! ### The registry fill -/

/-- What an agent reports of its system, for the registry fill. -/
structure ReportedInfo where
  hostname : String
  osName : String
  kernel : String
  cpuModel : String
  cpuCores : ℕ
  memory : Option MemoryCapacity
  deriving DecidableEq, Repr

/-- Which of the fill's writes SQLite refuses. -/
structure FillFaults where
  info : Bool := false
  memory : Bool := false
  name : Bool := false
  deriving DecidableEq, Repr

/-- The info write of a fill that read `system`. -/
def fillInfo (db : Database) (id : SystemId) (system : SystemInfo)
    (info : ReportedInfo) : Database :=
  if needsSystemInfo system then
    db.updateSystemInfo id
      ⟨some info.osName, some info.hostname, some info.kernel,
        some info.cpuModel, some info.cpuCores⟩
  else db

def fillMemory (db : Database) (id : SystemId) (system : SystemInfo)
    (info : ReportedInfo) : Database :=
  match memoryCapacityRefresh (MemoryCapacity.stored system) info.memory with
  | some capacity => db.updateMemoryCapacity id capacity
  | none => db

def fillName (db : Database) (id : SystemId) (system : SystemInfo)
    (info : ReportedInfo) : Database :=
  if id.isDefaultName system.name then db.updateName id info.hostname else db

/-- Fills in the system info while it is missing, refreshes the memory capacity, and replaces a
default name with the hostname. -/
def fillRegistry (db : Database) (id : SystemId) (info : ReportedInfo)
    (faults : FillFaults) : Database :=
  match db.systems.get? id with
  | none => db
  | some system =>
      let db := if faults.info then db else fillInfo db id system info
      let db := if faults.memory then db else fillMemory db id system info
      if faults.name then db else fillName db id system info

/-! ### Deletion -/

/-- The live applications' part of a deletion. -/
def removeLiveApplications (app : AppState) (system : SystemId) : AppState :=
  { app with liveApplications := app.liveApplications.erase system }

/-- Deletes a system: its rows in one transaction, then its live metrics, then its live
applications. -/
def deleteSystem (app : AppState) (system : SystemId) : AppState :=
  ({ app with db := app.db.deleteSystem system }.evictLiveMetrics system).removeLiveApplications
    system

/-! ### Push connections -/

/-- Ends a push connection: only the current one's end marks its system offline and evicts its
live metrics. -/
def endConnection (app : AppState) (system : SystemId) (number : ℕ) : AppState :=
  match app.presence.end system number with
  | (.current, presence) =>
      { app with
        presence
        db := app.db.updateSystemStatus system .offline .blank (some "push disconnected")
        liveMetrics := app.liveMetrics.erase system }
  | (.notCurrent, presence) => { app with presence }

end AppState

end MonitoringAgent.Hub
