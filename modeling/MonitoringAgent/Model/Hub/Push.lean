import MonitoringAgent.Model.Hub.App

/-! # The push edge

The handshake's registration and admission, and what an accepted connection's frames store. -/

namespace MonitoringAgent.Hub

open MonitoringAgent.Library

/-- How a registered id may push. -/
inductive Admitted where
  /-- A push system's: its connection holds the lease with this number. -/
  | push (lease : ℕ)
  /-- A polled system's: accepted, with no lease. -/
  | polled
  /-- A mail system's: refused. -/
  | mailSystem
  deriving DecidableEq, Repr

/-- What one push connection keeps between messages. -/
structure ConnectionState where
  systemId : SystemId
  lease : Option ℕ
  pace : TokenBucket
  deriving DecidableEq, Repr

namespace AppState

/-- Registers the id when it is new, under its default name. -/
def registerIfNew (app : AppState) (id : SystemId) : Database.Registration × AppState :=
  match app.db.insertSystemIfAbsent id (.registered id.defaultName pushUrl) with
  | (registration, db) => (registration, { app with db })

/-- Registers the id when it is new, then accepts the connection when the id is a push system's.
`live` says which connections' tasks still run. -/
def registerAndAccept (app : AppState) (id : SystemId) (live : ℕ → Bool) : Admitted × AppState :=
  match app.registerIfNew id with
  | (.inserted, app) | (.known .same, app) =>
      match app.presence.accept id live with
      | (lease, presence) => (.push lease, { app with presence })
  | (.known .other, app) => (.polled, app)
  | (.known .mail, app) => (.mailSystem, app)

/-- Claims currency for a connection that holds a lease. -/
def claimFor (app : AppState) (connection : ConnectionState) : AppState :=
  match connection.lease with
  | some number => { app with presence := app.presence.claim connection.systemId number }
  | none => app

/-- Ends a connection: one without a lease writes nothing. -/
def endFor (app : AppState) (connection : ConnectionState) : AppState :=
  match connection.lease with
  | some number => app.endConnection connection.systemId number
  | none => app

end AppState

end MonitoringAgent.Hub
