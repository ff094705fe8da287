import MonitoringAgent.Model.Hub.Push

/-! # Push connections, side by side

The steps of the hub's push connections and of its disconnection sweep, in any order the locks
allow. The presence lock is held through an end, and through each row of a sweep; a store takes only
the database's. -/

namespace MonitoringAgent.Hub

open MonitoringAgent.Library

/-- A connection that holds a lease. -/
structure PushTask where
  systemId : SystemId
  /-- Whether the connection's task still runs; a unit of its work may outlive it. -/
  running : Bool
  /-- Whether a unit of its work has claimed, and is to store. -/
  storing : Bool
  deriving DecidableEq, Repr

/-- The hub, and where its connections and the sweep stand. -/
structure PushHub where
  app : AppState
  /-- By the connection's number. -/
  tasks : Table ℕ PushTask
  /-- The system whose end holds the presence lock: marked offline, its live metrics still there. -/
  ending : Option SystemId
  /-- The rows that the running sweep pass read and has yet to decide. -/
  pass : List (SystemId × SystemStatus)

inductive PushStep where
  /-- A handshake's registration and acceptance. -/
  | handshake (id : SystemId)
  /-- The claim before a snapshot frame's store. -/
  | claim (number : ℕ)
  /-- The store of the frame that claimed. -/
  | store (number : ℕ) (snapshot : Snapshot) (time : SnapshotTime)
      (lastSeen : Option LastSeen) (fails : Bool)
  /-- A connection's end, up to the offline write. -/
  | «end» (number : ℕ) (fails : Bool)
  /-- The rest of an end: its system's live metrics are evicted, and the lock is released. -/
  | evict
  /-- A connection's task dies without an end. -/
  | die (number : ℕ)
  /-- A sweep pass reads the registry. -/
  | readRegistry
  /-- The pass decides its next row, the hub up for `upFor`. -/
  | sweepRow (upFor : ℕ) (fails : Bool)

/-- What a step did to a push system. -/
inductive PushEvent where
  /-- A connection was accepted, and is current or not. -/
  | accepted (system : SystemId) (number : ℕ) (current : Bool)
  | claimed (system : SystemId) (number : ℕ)
  | stored (system : SystemId) (number : ℕ)
  /-- A connection ended, and its offline write, if it was current, was made or failed. -/
  | ended (system : SystemId) (number : ℕ) (ending : Ending) (fails : Bool)
  | swept (system : SystemId) (sweep : Sweep)
  deriving DecidableEq

namespace PushHub

/-- A hub that has just started. -/
def start (db : Database) : PushHub := ⟨{ AppState.new with db }, .empty, none, []⟩

/-- Whether a connection's task still runs. -/
def live (h : PushHub) (number : ℕ) : Bool := (h.tasks.get? number).any (·.running)

def handshake (h : PushHub) (id : SystemId) : Option PushEvent × PushHub :=
  match h.app.registerAndAccept id h.live with
  | (.push number, app) =>
      (some (.accepted id number ((app.presence.current.get? id).any (·.number = number))),
        { h with app, tasks := h.tasks.insert number ⟨id, true, false⟩ })
  | (_, app) => (none, { h with app })

def claim (h : PushHub) (number : ℕ) (task : PushTask) : Option PushEvent × PushHub :=
  (some (.claimed task.systemId number),
    { h with
      app := { h.app with presence := h.app.presence.claim task.systemId number }
      tasks := h.tasks.insert number { task with storing := true } })

def store (h : PushHub) (number : ℕ) (task : PushTask) (snapshot : Snapshot) (time : SnapshotTime)
    (lastSeen : Option LastSeen) (fails : Bool) : Option PushEvent × PushHub :=
  let tasks := h.tasks.insert number { task with storing := false }
  if fails then (none, { h with tasks })
  else
    match h.app.storeSnapshot task.systemId snapshot time lastSeen with
    | (.stored, app) => (some (.stored task.systemId number), { h with app, tasks })
    | (.systemGone, app) => (none, { h with app, tasks })

/-- The offline write of an end, which may fail. -/
def writeOffline (app : AppState) (system : SystemId) (error : String) (fails : Bool) : AppState :=
  if fails then app else { app
    with db := app.db.updateSystemStatus system .offline .blank (some error) }

def endTask (h : PushHub) (number : ℕ) (task : PushTask) (fails : Bool) :
    Option PushEvent × PushHub :=
  let tasks := h.tasks.erase number
  match h.app.presence.end task.systemId number with
  | (.current, presence) =>
      (some (.ended task.systemId number .current fails),
        { h with
          app := writeOffline { h.app with presence } task.systemId "push disconnected" fails
          tasks
          ending := some task.systemId })
  | (.notCurrent, presence) =>
      (some (.ended task.systemId number .notCurrent fails),
        { h with app := { h.app with presence }, tasks })

/-- The push systems' ids and statuses. -/
def pushRows (db : Database) : List (SystemId × SystemStatus) :=
  (db.systems.entries.filter fun e => SystemSource.of e.2.url = .push).map
    fun e => (e.1, e.2.status)

def sweepRow (h : PushHub) (system : SystemId) (status : SystemStatus) (upFor : ℕ) (fails : Bool) :
    Option PushEvent × PushHub :=
  match h.app.presence.sweep system status upFor h.live with
  | (.leave, presence) => (some (.swept system .leave), { h with app := { h.app with presence } })
  | (.markOffline reason, presence) =>
      (some (.swept system (.markOffline reason)),
        { h with app := writeOffline { h.app with presence } system reason.lastError fails })

/-- One step. A step that needs the presence lock while an end holds it, or a connection that isn't
there, does nothing. -/
def step (h : PushHub) : PushStep → Option PushEvent × PushHub
  | .handshake id => if h.ending.isNone then h.handshake id else (none, h)
  | .claim number =>
      match h.tasks.get? number with
      | some task => if h.ending.isNone && !task.storing then h.claim number task else (none, h)
      | none => (none, h)
  | .store number snapshot time lastSeen fails =>
      match h.tasks.get? number with
      | some task => if task.storing then h.store number task snapshot time lastSeen fails
          else (none, h)
      | none => (none, h)
  | .end number fails =>
      match h.tasks.get? number with
      | some task =>
          if h.ending.isNone && task.running && !task.storing then h.endTask number task fails
            else (none, h)
      | none => (none, h)
  | .evict =>
      match h.ending with
      | some system => (none, { h with app := h.app.evictLiveMetrics system, ending := none })
      | none => (none, h)
  | .die number =>
      match h.tasks.get? number with
      | some task =>
          (none, { h with tasks := h.tasks.insert number { task with running := false } })
      | none => (none, h)
  | .readRegistry => (none, if h.pass.isEmpty then { h with pass := pushRows h.app.db } else h)
  | .sweepRow upFor fails =>
      match h.pass with
      | (system, status) :: rest =>
          if h.ending.isNone then { h with pass := rest }.sweepRow system status upFor fails
            else (none, h)
      | [] => (none, h)

/-- The steps of a run, and the events they left. -/
def run (h : PushHub) : List PushStep → List PushEvent × PushHub
  | [] => ([], h)
  | s :: steps =>
      let (event, h) := h.step s
      let (log, h) := h.run steps
      (event.toList ++ log, h)

end PushHub

end MonitoringAgent.Hub
