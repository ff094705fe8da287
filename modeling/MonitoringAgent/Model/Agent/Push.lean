import Mathlib.Tactic
import MonitoringAgent.Model.Agent.Snapshot

/-! # The push client

The published snapshots and rounds, sent over one connection to the hub after another. Each event is
one await of the client that completes, with the time it completes at, or a step of another of the
agent's tasks. -/

namespace MonitoringAgent.Agent.Push

/-! ### What the client sends and reads -/

/-- A message the hub's side of the socket yields. -/
inductive Message where
  | text (text : String)
  | binary (data : List UInt8)
  | ping (data : List UInt8)
  | pong (data : List UInt8)
  | close
  deriving DecidableEq, Repr

/-- What the socket yields next: a message, an error, or `none` at its end. -/
abbrev Incoming := Option (Except String Message)

/-- A text message of the hub's. -/
structure HubMessage where
  msgType : String
  message : String
  deriving DecidableEq, Repr

/-- A message the agent sends, before its encoding. -/
inductive Sent (System Round : Type) where
  | auth (systemId token : String)
  | snapshot (systemId : String) (snapshot : PublishedSnapshot System)
  | round (round : Round)
  | ping
  deriving DecidableEq, Repr

/-- Whether it is a snapshot frame or an application frame. -/
def Sent.isTelemetry {System Round : Type} : Sent System Round → Bool
  | .snapshot _ _ | .round _ => true
  | .auth _ _ | .ping => false

/-- Why the client returned an error. -/
inductive PushError where
  | collectorEnded
  | connection (message : String)
  deriving DecidableEq, Repr

/-- What the client is started with: where it pushes to, how often, how a text message is read and
which frames can be encoded. -/
structure Config (System Round : Type) where
  hubUrl : String
  token : String
  systemId : String
  pushIntervalSecs : ℕ
  parse : String → Option HubMessage
  encodesSnapshot : PublishedSnapshot System → Bool
  encodesRound : Round → Bool

/-- The time between two push ticks. -/
def Config.tickEvery {System Round : Type} (config : Config System Round) : ℕ :=
  seconds (config.pushIntervalSecs.max 2)

def pingEvery : ℕ := seconds 30

/-- How long the client waits before it tries again. -/
def retryDelay : ℕ := seconds 5

/-! ### The client's state -/

/-- What the client awaits. -/
inductive Phase where
  /-- A fresh snapshot. -/
  | waiting
  | connecting
  /-- The auth message is being sent. -/
  | authenticating
  /-- The hub's answer to it. -/
  | answering
  /-- The current round is being sent, if there is one. -/
  | resending
  /-- The next push tick or ping is due at these times. -/
  | pumping (nextTick nextPing : ℕ)
  /-- The connection closes, the snapshot being stale. -/
  | closing
  | sleeping (wake : ℕ)
  | stopped
  deriving DecidableEq, Repr

/-- The channels the client reads, what it keeps across its connections, and where it stands. -/
structure Client (System Round : Type) where
  snapshot : PublishedSnapshot System
  collecting : Bool := true
  round : Option Round := none
  /-- How many rounds were published. -/
  roundVersion : ℕ := 0
  scraping : Bool := true
  /-- The snapshot the hub was last sent. -/
  lastSent : Option ℕ := none
  /-- The version of the rounds the client saw last; `none` when it doesn't look at rounds. -/
  roundSeen : Option ℕ
  phase : Phase := .waiting
  clock : ℕ

inductive Event (System Round : Type) where
  | snapshotPublished (system : System) (collectedAt : UInt64) (readAt : ℕ)
  | collectorEnded
  | roundPublished (round : Round)
  | scrapeLoopEnded
  | waited
  | connected (result : Except String Unit)
  | authSent (result : Except String Unit)
  | answered (answer : Incoming)
  | resent (alive : Bool)
  | ticked (alive : Bool)
  | pinged (alive : Bool)
  | roundChanged (alive : Bool)
  | received (incoming : Incoming)
  | closed
  | slept

inductive Action (System Round : Type) where
  | connects (url : String)
  | sends (message : Sent System Round) (alive : Bool)
  | marksSent (seq : ℕ)
  | returns (result : Except PushError Unit)
  deriving DecidableEq

variable {System Round : Type}

/-- What a push tick owes the hub. -/
inductive Due (System : Type) where
  | send (snapshot : PublishedSnapshot System)
  | unchanged
  | stale

namespace Client

def due (c : Client System Round) (now : ℕ) : Due System :=
  if c.snapshot.isFresh now then
    if c.lastSent = some c.snapshot.seq then .unchanged else .send c.snapshot
  else
    .stale

/-- Returns from `run_push_client`: the loop calls it again at once, after a delay, or never. -/
def finish (c : Client System Round) (result : Except PushError Unit) :
    List (Action System Round) × Client System Round :=
  ([.returns result],
    { c with
      phase := match result with
        | .ok () => .waiting
        | .error .collectorEnded => .stopped
        | .error (.connection _) => .sleeping (c.clock + retryDelay) })

/-- The pump goes on, or the session ends as lost. -/
def goOn (c : Client System Round) (alive : Bool) :
    List (Action System Round) × Client System Round :=
  if alive then ([], c) else c.finish (.ok ())

/-- Sends a round. One that can't be encoded is skipped. -/
def sendRound (config : Config System Round) (round : Option Round) (alive : Bool) :
    List (Action System Round) × Bool :=
  match round with
  | some round => if config.encodesRound round then ([.sends (.round round) alive], alive)
      else ([], true)
  | none => ([], true)

/-- Sends a snapshot and marks it sent. One that can't be encoded is skipped. -/
def sendSnapshot (config : Config System Round) (c : Client System Round)
    (snapshot : PublishedSnapshot System) (alive : Bool) :
    List (Action System Round) × Bool × Client System Round :=
  let (sends, sent) :=
    if config.encodesSnapshot snapshot then
      ([.sends (.snapshot config.systemId snapshot) alive], alive)
    else
      ([], true)
  if sent then
    (sends ++ [.marksSent snapshot.seq], sent, { c with lastSent := some snapshot.seq })
  else
    (sends, sent, c)

/-- The latest round, marked seen, unless the scrape loop has ended. -/
def currentRound (c : Client System Round) : Option Round × Client System Round :=
  match c.roundSeen with
  | none => (none, c)
  | some _ =>
      if c.scraping then (c.round, { c with roundSeen := some c.roundVersion })
      else (none, { c with roundSeen := none })

/-- The next round, once there is one; a closed channel is given up. -/
def nextRound (c : Client System Round) : Option (Option Round × Client System Round) :=
  match c.roundSeen with
  | none => none
  | some seen =>
      if seen ≠ c.roundVersion then some (c.round, { c with roundSeen := some c.roundVersion })
      else if c.scraping then none
      else some (none, { c with roundSeen := none })

end Client

/-- Reads the hub's answer to the auth message. -/
def authenticate (parse : String → Option HubMessage) (answer : Incoming) : Except String Unit :=
  match answer with
  | some (.ok (.text resp)) =>
      match parse resp with
      | some msg => if msg.msgType = "auth_ok" then .ok () else .error
          ("auth failed: " ++ msg.message)
      | none => .ok ()
  | _ => .ok ()

/-- Whether what the socket yielded means the connection is gone. -/
def hubHungUp : Incoming → Bool
  | some (.ok .close) | some (.error _) | none => true
  | some (.ok _) => false

/-- The URL of the hub's push endpoint. -/
def pushUrl (hubUrl : String) : String :=
  String.ofList (hubUrl.toList.reverse.dropWhile (· = '/')).reverse ++ "/api/push"

/-! ### One event -/

namespace Client

/-- A push tick: a fresh snapshot the hub doesn't have is sent, and a stale one ends the session. -/
def tick (config : Config System Round) (c : Client System Round) (alive : Bool) :
    List (Action System Round) × Client System Round :=
  match c.due c.clock with
  | .send snapshot =>
      let (sends, sent, c) := sendSnapshot config c snapshot alive
      let (ends, c) := c.goOn sent
      (sends ++ ends, c)
  | .unchanged => ([], c)
  | .stale => ([], { c with phase := .closing })

/-- A session event of the pump's, one arm of its select. -/
def pump (config : Config System Round) (c : Client System Round) (nextTick nextPing : ℕ) :
    Event System Round → Option (List (Action System Round) × Client System Round)
  | .ticked alive =>
      if nextTick ≤ c.clock then
        some ({ c with phase := .pumping (nextTick + config.tickEvery) nextPing }.tick config alive)
      else
        none
  | .pinged alive =>
      if nextPing ≤ c.clock then
        let (ends, c) := { c with phase := .pumping nextTick (nextPing + pingEvery) }.goOn alive
        some (.sends .ping alive :: ends, c)
      else
        none
  | .roundChanged alive =>
      c.nextRound.map fun (round, c) =>
        let (sends, sent) := sendRound config round alive
        let (ends, c) := c.goOn sent
        (sends ++ ends, c)
  | .received incoming => some (c.goOn !hubHungUp incoming)
  | _ => none

/-- The event, at the time of the clock. -/
def take (config : Config System Round) (c : Client System Round) :
    Event System Round → Option (List (Action System Round) × Client System Round)
  | .snapshotPublished system collectedAt readAt =>
      if c.collecting then
        some ([], { c with snapshot := ⟨system, collectedAt, readAt, c.snapshot.seq + 1⟩ })
      else
        none
  | .collectorEnded => some ([], { c with collecting := false })
  | .roundPublished round =>
      if c.scraping then
        some ([], { c with round := some round, roundVersion := c.roundVersion + 1 })
      else
        none
  | .scrapeLoopEnded => some ([], { c with scraping := false })
  | event =>
      match c.phase, event with
      | .waiting, .waited =>
          if c.snapshot.isFresh c.clock then
            some ([.connects (pushUrl config.hubUrl)], { c with phase := .connecting })
          else if c.collecting then none
          else some (c.finish (.error .collectorEnded))
      | .connecting, .connected (.ok ()) => some ([], { c with phase := .authenticating })
      | .connecting, .connected (.error e) => some (c.finish (.error (.connection e)))
      | .authenticating, .authSent result =>
          let sends := .sends (.auth config.systemId config.token) result.isOk
          match result with
          | .ok () => some ([sends], { c with phase := .answering })
          | .error e =>
              let (ends, c) := c.finish (.error (.connection e))
              some (sends :: ends, c)
      | .answering, .answered answer =>
          match authenticate config.parse answer with
          | .ok () => some ([], { c with phase := .resending })
          | .error e => some (c.finish (.error (.connection e)))
      | .resending, .resent alive =>
          let (round, c) := c.currentRound
          let (sends, sent) := sendRound config round alive
          let (ends, c) := { c with phase := .pumping c.clock c.clock }.goOn sent
          some (sends ++ ends, c)
      | .pumping nextTick nextPing, event => c.pump config nextTick nextPing event
      | .closing, .closed => some (c.finish (.ok ()))
      | .sleeping wake, .slept => if wake ≤ c.clock then some
          ([], { c with phase := .waiting }) else none
      | _, _ => none

end Client

/-! ### Runs -/

/-- An event, the time it happened at and what the client did. -/
structure Step (System Round : Type) where
  now : ℕ
  event : Event System Round
  actions : List (Action System Round)

namespace Client

/-- The client looks at rounds when applications are on. -/
def new (snapshot : PublishedSnapshot System) (applications : Bool) (now : ℕ) :
    Client System Round :=
  { snapshot, roundSeen := if applications then some 0 else none, clock := now }

/-- The event at `now`; `none` when it can't happen then. -/
def step (config : Config System Round) (c : Client System Round) (now : ℕ)
    (event : Event System Round) : Option (Step System Round × Client System Round) :=
  if c.clock ≤ now then
    ({ c with clock := now }.take config event).map fun (actions, c) => (⟨now, event, actions⟩, c)
  else
    none

/-- The events of a run, each at its time. -/
def run (config : Config System Round) (c : Client System Round) :
    List (ℕ × Event System Round) → Option (List (Step System Round) × Client System Round)
  | [] => some ([], c)
  | (now, event) :: events =>
      match c.step config now event with
      | none => none
      | some (step, c) => (c.run config events).map fun (steps, c) => (step :: steps, c)

end Client

end MonitoringAgent.Agent.Push
