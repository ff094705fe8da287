import MonitoringAgent.Model.Agent.Applications
import MonitoringAgent.Model.Agent.Push
import MonitoringAgent.Model.Hub.Intake

/-! # The push link

The agent's push client, its scrape loop, and the hub's end of each connection. Timers fire on time,
and the hub reads each message the instant it is sent, unless the connection is lost. -/

namespace MonitoringAgent.Agent

def ScrapeInterval.asDuration (interval : ScrapeInterval) : ℕ := seconds interval.secs

end MonitoringAgent.Agent

namespace MonitoringAgent.Wire

open MonitoringAgent.Agent.Push

variable {System Round : Type}

/-- What both ends are set up with: the agent's configuration, its scrape interval, and what the hub
decodes the agent's frames to. -/
structure LinkConfig (System Round : Type) where
  push : Config System Round
  interval : Agent.ScrapeInterval
  systemId : Hub.SystemId
  decodeSnapshot : Agent.PublishedSnapshot System → Option Hub.SnapshotFrame
  decodeRound : Round → Option Hub.ScrapeRound

/-- The frame a binary message of the agent's is decoded to. -/
def LinkConfig.frame (config : LinkConfig System Round) : Sent System Round → Option Hub.Frame
  | .snapshot _ snapshot => some ((config.decodeSnapshot snapshot).elim .refused .snapshot)
  | .round round => some ((config.decodeRound round).elim .refused .round)
  | .auth _ _ | .ping => none

/-- Both ends of the link. -/
structure Link (System Round : Type) where
  client : Client System Round
  /-- When the scrape loop's sleep ends. -/
  scrapeWake : ℕ := 0
  /-- The hub's end of the current connection, once it is accepted. -/
  intake : Option Hub.Intake := none

inductive LinkEvent (System Round : Type) where
  /-- The hub accepts the current connection. -/
  | accepted (lease : Option ℕ)
  /-- An event of the agent's. What it sends is read at the hub's moment, unless it is lost. -/
  | agent (event : Event System Round) (moment : Option Hub.Moment)

/-- What the agent did, and what became of the messages the hub read. -/
structure LinkLog (System Round : Type) where
  steps : List (Step System Round)
  ingested : List Hub.IngestOutcome

namespace Link

/-- Whether the event's timer, if it has one, is due just then. -/
def onTime (c : Client System Round) (now : ℕ) : Event System Round → Bool
  | .ticked _ => match c.phase with
    | .pumping nextTick _ => now = nextTick
    | _ => true
  | .pinged _ => match c.phase with
    | .pumping _ nextPing => now = nextPing
    | _ => true
  | .slept => match c.phase with
    | .sleeping wake => now = wake
    | _ => true
  | _ => true

/-- The scrape loop publishes a round, then sleeps a full interval. -/
def scrape (config : LinkConfig System Round) (wake now : ℕ) : Event System Round → Option ℕ
  | .roundPublished _ => if wake ≤ now then some (now + config.interval.asDuration) else none
  | _ => some wake

/-- The hub reads what the agent does; a new connection is another one. -/
def reads (config : LinkConfig System Round) (moment : Option Hub.Moment) :
    Option Hub.Intake → List (Action System Round) → List Hub.IngestOutcome × Option Hub.Intake
  | intake, [] => ([], intake)
  | _, .connects _ :: actions => reads config moment none actions
  | some intake, .sends message _ :: actions =>
      match moment, config.frame message with
      | some found, some frame =>
          let (ingested, _, intake) := intake.ingest frame found
          let (rest, intake) := reads config moment (some intake) actions
          (ingested :: rest, intake)
      | _, _ => reads config moment (some intake) actions
  | intake, _ :: actions => reads config moment intake actions

def step (config : LinkConfig System Round) (l : Link System Round) (now : ℕ) :
    LinkEvent System Round → Option (LinkLog System Round × Link System Round)
  | .accepted lease =>
      if l.client.clock ≤ now ∧ l.intake = none then
        some (⟨[], []⟩,
          { l with
            client := { l.client with clock := now }
            intake := some (.new config.systemId lease now) })
      else
        none
  | .agent event moment =>
      if onTime l.client now event then
        match scrape config l.scrapeWake now event, l.client.step config.push now event with
        | some scrapeWake, some (step, client) =>
            let moment := moment.map fun found =>
              { found with arrival := { found.arrival with now } }
            let (ingested, intake) := reads config moment l.intake step.actions
            some (⟨[step], ingested⟩, { client, scrapeWake, intake })
        | _, _ => none
      else
        none

/-- The events of a run, each at its time. -/
def run (config : LinkConfig System Round) (l : Link System Round) :
    List (ℕ × LinkEvent System Round) → Option (LinkLog System Round × Link System Round)
  | [] => some (⟨[], []⟩, l)
  | (now, event) :: events =>
      match l.step config now event with
      | none => none
      | some (log, l) =>
          (l.run config events).map fun (rest, l) =>
            (⟨log.steps ++ rest.steps, log.ingested ++ rest.ingested⟩, l)

end Link

end MonitoringAgent.Wire
