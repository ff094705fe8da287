import MonitoringAgent.Model.Hub.App

/-! # The poller's writes

What a poll of a system writes, each write one hold of the locks it takes. A write that SQLite
refuses is logged and the poll goes on. -/

namespace MonitoringAgent.Hub

open MonitoringAgent.Library

/-- An active alert, as far as the agent's JSON gives its fields. -/
structure PolledAlert where
  id : Option String
  severity : Option String
  message : Option String
  currentValue : Option Value
  firedAt : Option String
  deriving DecidableEq, Repr

/-- One active alert's record; `uuid` is the id it gets when the agent gives none. -/
def alertRecord (system : SystemId) (name : String) (alert : PolledAlert)
    (storedAt : ℕ) (uuid : String) : AlertRecord where
  id := (alert.id.map fun id => system ++ "_" ++ id).getD uuid
  systemId := system
  systemName := name
  severity := alert.severity.getD "warning"
  message := alert.message.getD ""
  currentValue := alert.currentValue.getD 0#32
  firedAt := alert.firedAt.getD ""
  storedAt := storedAt
  acknowledged := false

namespace AppState

/-- Marks a system whose poll failed offline. -/
def markOffline (app : AppState) (system : SystemId) (now error : String) : AppState :=
  { app with db := app.db.updateSystemStatus system .offline (.polledAt now) (some error) }

/-- Fills in a system's static info from its first successful poll. -/
def recordSystemInfo (app : AppState) (system : SystemId)
    (info : Database.InfoColumns) : AppState :=
  { app with db := app.db.updateSystemInfo system info }

/-- Stores the capacity reported when it differs from the one `row`, read before the poll, has. -/
def refreshMemoryCapacity (app : AppState) (system : SystemId) (row : SystemInfo)
    (reported : Option MemoryCapacity) : AppState :=
  match memoryCapacityRefresh (MemoryCapacity.stored row) reported with
  | some capacity => { app with db := app.db.updateMemoryCapacity system capacity }
  | none => app

/-- One alert record, passed over when SQLite refuses it. -/
def storeAgentAlert (app : AppState) (alert : AlertRecord) : AppState :=
  match app.db.insertAlert alert with
  | .ok db => { app with db }
  | .error _ => app

end AppState

end MonitoringAgent.Hub
