import MonitoringAgent.Library.Table
import MonitoringAgent.Model.Hub.Registry

/-! # Push presence

Which open push connection is current for each push system. -/

namespace MonitoringAgent.Hub

open MonitoringAgent.Library

/-- A system's current connection: its number, and whether a snapshot on it has claimed
currency. -/
structure Current where
  number : ℕ
  claimed : Bool
  deriving DecidableEq, Repr

/-- Every push system's current connection, and the number the next one takes. -/
structure PushPresence where
  next : ℕ
  current : Table SystemId Current

/-- What a connection's end means for its system. -/
inductive Ending where
  /-- The ending connection was current: its system is marked offline. -/
  | current
  /-- Another connection is current, or none is. -/
  | notCurrent
  deriving DecidableEq, Repr

namespace PushPresence

def new : PushPresence := ⟨0, .empty⟩

/-- A handshake accepted: takes the next number, and makes it current only when the system has no
live current connection. `live` says which connections' tasks still run. -/
def accept (p : PushPresence) (system : SystemId) (live : ℕ → Bool) : ℕ × PushPresence :=
  let taken := (p.current.get? system).any fun current => live current.number
  (p.next, {
    next := (p.next + 1) % 2 ^ 64
    current := if taken then p.current else p.current.insert system ⟨p.next, false⟩ })

/-- A snapshot frame on a connection: it becomes current, and has claimed. -/
def claim (p : PushPresence) (system : SystemId) (number : ℕ) : PushPresence :=
  { p with current := p.current.insert system ⟨number, true⟩ }

/-- A connection ended: when it was current, its entry is removed. -/
def «end» (p : PushPresence) (system : SystemId) (number : ℕ) : Ending × PushPresence :=
  if (p.current.get? system).any (·.number = number) then
    (.current, { p with current := p.current.erase system })
  else (.notCurrent, p)

end PushPresence

/-! ### The disconnection sweep -/

/-- How long after the hub starts a push system with no current connection is left alone. -/
def reconnectGrace : ℕ := 120 * 1000000000

/-- Why the sweep marks a push system offline. -/
inductive OfflineReason where
  /-- No live current connection, the hub up past the reconnect grace. -/
  | notConnected
  /-- A stored id that breaks the rule: no handshake can make it current. -/
  | invalidSystemId
  deriving DecidableEq, Repr

/-- The `lastError` the marking writes. -/
def OfflineReason.lastError : OfflineReason → String
  | .notConnected => "push disconnected"
  | .invalidSystemId => "invalid system id"

/-- What the disconnection sweep does with one push system. -/
inductive Sweep where
  | leave
  | markOffline (reason : OfflineReason)
  deriving DecidableEq, Repr

/-- What the sweep sees of a system's current connection. -/
inductive Connection where
  | none
  | claimed
  | unclaimed
  deriving DecidableEq, Repr

namespace PushPresence

/-- The system's live current connection, forgetting an entry whose task is gone. -/
def connectionOf (p : PushPresence) (system : SystemId) (live : ℕ → Bool) :
    Connection × PushPresence :=
  match p.current.get? system with
  | none => (.none, p)
  | some current =>
      if live current.number then (if current.claimed then .claimed else .unclaimed, p)
      else (.none, { p with current := p.current.erase system })

/-- What the sweep does with a push system stored with `status`, the hub up for `upFor`. -/
def sweep (p : PushPresence) (system : SystemId) (status : SystemStatus)
    (upFor : ℕ) (live : ℕ → Bool) : Sweep × PushPresence :=
  let (connection, p) := p.connectionOf system live
  let disconnected : Bool := match status, connection with
    | .offline, _ => false
    | .online, .claimed => false
    | .online, .unclaimed => true
    | .unknown, .claimed | .unknown, .unclaimed => false
    | .online, .none | .unknown, .none => true
  if !disconnected || upFor < reconnectGrace then (.leave, p)
  else
    match SystemId.tryFrom system with
    | .ok _ => (.markOffline .notConnected, p)
    | .error _ => (.markOffline .invalidSystemId, p)

end PushPresence

end MonitoringAgent.Hub
