import Mathlib.Data.Nat.Notation

/-! # Published snapshots

What the collector publishes and both clients read. Instants and durations are in nanoseconds. -/

namespace MonitoringAgent.Agent

/-- A whole number of seconds as a duration. -/
def seconds (secs : ℕ) : ℕ := secs * 1000000000

/-- A snapshot as the collector publishes it: the wall clock's Unix seconds, when it was read, and
its place among the published ones. -/
structure PublishedSnapshot (System : Type) where
  system : System
  collectedAt : UInt64
  readAt : ℕ
  seq : ℕ
  deriving DecidableEq, Repr

/-- How long ago a snapshot may have been read and still be served. -/
def stalenessBound : ℕ := seconds 30

/-- Whether the snapshot may still be served at `now`. -/
def PublishedSnapshot.isFresh {System : Type}
    (snapshot : PublishedSnapshot System) (now : ℕ) : Bool :=
  now - snapshot.readAt ≤ stalenessBound

end MonitoringAgent.Agent
