import MonitoringAgent.Model.Hub.Push

/-! # The intake of a push connection

Every binary message of a connection spends a token of its decode budget before it is decoded, and
every round among them is admitted under the connection's pace. -/

namespace MonitoringAgent.Hub

open AppState (Arrival ReportedInfo FillFaults SnapshotStored)

/-- How the decode budget fills: an agent's densest honest burst, and a token every second. -/
def decodeRefill : Refill := ⟨3, 10 ^ 9, by decide⟩

/-- A connection with its decode budget. -/
structure Intake extends ConnectionState where
  budget : TokenBucket
  deriving DecidableEq, Repr

/-- A snapshot frame, parsed at the edge. -/
structure SnapshotFrame where
  reported : Snapshot
  time : SnapshotTime
  lastSeen : Option LastSeen
  info : ReportedInfo
  deriving DecidableEq

/-- What a binary message is decoded to. -/
inductive Frame where
  | snapshot (frame : SnapshotFrame)
  | round (round : ScrapeRound)
  /-- It doesn't decode, or is refused. -/
  | refused
  deriving DecidableEq

/-- What became of a binary message. -/
inductive IngestOutcome where
  | outOfBudget
  | snapshot (outcome : SnapshotStored)
  | round (outcome : Database.RoundStored)
  | refused
  deriving DecidableEq, Repr

/-- What the hub finds as it reads a message: its state, when it is, and which of a fill's writes
fail. -/
structure Moment where
  app : AppState
  arrival : Arrival
  faults : FillFaults := {}

/-- Stores a snapshot frame, claiming its connection's currency first, then fills the registry. -/
def ingestFrame (connection : ConnectionState) (frame : SnapshotFrame) (moment : Moment) :
    SnapshotStored × AppState :=
  let app := moment.app.claimFor connection
  match app.storeSnapshot connection.systemId frame.reported frame.time frame.lastSeen with
  | (.stored, app) =>
      (.stored, { app with db :=
        AppState.fillRegistry app.db connection.systemId frame.info moment.faults })
  | (.systemGone, app) => (.systemGone, app)

namespace Intake

/-- A connection's state as it is accepted at `now`. -/
def new (systemId : SystemId) (lease : Option ℕ) (now : Instant) : Intake :=
  ⟨⟨systemId, lease, .full Hub.pace now⟩, .full decodeRefill now⟩

/-- Spends a token of the decode budget for a message read at `now`. -/
def spendDecodeBudget (intake : Intake) (now : Instant) : Option Intake :=
  (intake.budget.take now).map fun budget => { intake with budget }

/-- Admits and stores one scrape round under the connection's pace. -/
def ingestRound (intake : Intake) (round : ScrapeRound) (moment : Moment) :
    Database.RoundStored × AppState × Intake :=
  match moment.app.storeRound intake.systemId round intake.pace moment.arrival with
  | (.stored spent, app) => (.stored spent, app, { intake with pace := spent })
  | (other, app) => (other, app, intake)

/-- Spends the decode budget, then decodes and stores one message. -/
def ingest (intake : Intake) (frame : Frame) (moment : Moment) :
    IngestOutcome × AppState × Intake :=
  match intake.spendDecodeBudget moment.arrival.now with
  | none => (.outOfBudget, moment.app, intake)
  | some intake =>
      match frame with
      | .snapshot frame =>
          let (outcome, app) := ingestFrame intake.toConnectionState frame moment
          (.snapshot outcome, app, intake)
      | .round round =>
          let (outcome, app, intake) := intake.ingestRound round moment
          (.round outcome, app, intake)
      | .refused => (.refused, moment.app, intake)

end Intake

end MonitoringAgent.Hub
