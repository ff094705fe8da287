import MonitoringAgent.Library.Bounded
import MonitoringAgent.Model.Agent.MailReport

/-! # The mail client

The batch between two mail reports: which samples to keep, which alert incidents were active, and
when an incident may send a report at once. Over it, the client's ticks. Instants and durations are
in nanoseconds. -/

namespace MonitoringAgent.Agent

open MonitoringAgent.Library

/-- The most samples one report carries. -/
def maxSamples : ℕ := 60

/-- The most alerts one report carries. -/
def maxAlerts : ℕ := 64

/-- The least time between two incident reports. -/
def incidentSpacing : ℕ := seconds 60

def MailInterval.asDuration (interval : MailInterval) : ℕ := seconds interval.secs

/-! ### The batch -/

/-- The seconds between kept samples. -/
structure SampleInterval where
  secs : ℕ
  ten_le : 10 ≤ secs
  deriving DecidableEq, Repr

/-- 10 s up to the mail interval, and at most 60 samples a report. -/
def SampleInterval.new (secs : ℕ) (mail : MailInterval) : Option SampleInterval :=
  if h : 10 ≤ secs ∧ secs ≤ mail.secs ∧ (mail.secs + secs - 1) / secs ≤ maxSamples then
    some ⟨secs, h.1⟩
  else
    none

def SampleInterval.asDuration (interval : SampleInterval) : ℕ := seconds interval.secs

/-- Whether an offered sample was kept. -/
inductive Offer where
  | kept
  | skipped
  deriving DecidableEq, Repr

/-- What the agent gathers between two reports. -/
structure MailBatch where
  run : AgentRun
  nextSeq : UInt64
  sampleInterval : SampleInterval
  lastKept : Option ℕ
  samples : List MailedSnapshot
  alerts : List MailedAlert
  /-- The incident ids active on the last tick, across closes: an incident is new only once. -/
  active : List String

namespace MailBatch

def new (run : AgentRun) (sampleInterval : SampleInterval) : MailBatch :=
  ⟨run, 1, sampleInterval, none, [], [], []⟩

/-- Whether a sample read at `now` would be kept. -/
def due (b : MailBatch) (now : ℕ) : Bool :=
  b.lastKept.all fun last => b.sampleInterval.asDuration ≤ now - last

/-- Keeps `sample`, read at `now`, when a sample interval has passed since the last kept one. -/
def offer (b : MailBatch) (sample : MailedSnapshot) (now : ℕ) : Offer × MailBatch :=
  if b.due now then
    (.kept, { b with samples := pushBounded maxSamples b.samples sample, lastKept := some now })
  else
    (.skipped, b)

/-- Notes one alert, once by incident id. -/
def noteAlert (noted : List MailedAlert) (alert : ActiveAlert F32) : List MailedAlert :=
  if noted.any (·.id = alert.id) then noted
  else pushBounded maxAlerts noted (MailedAlert.from alert)

/-- Notes the alerts active on a tick. Returns whether an incident became active since the last
tick. -/
def noteAlerts (b : MailBatch) (alerts : List (ActiveAlert F32)) : Bool × MailBatch :=
  let anyNew := alerts.any fun alert => !b.active.contains alert.id
  (anyNew, { b with active := alerts.map (·.id), alerts := alerts.foldl noteAlert b.alerts })

/-- Closes the batch into the next report and empties it; `none` when no sample was kept. -/
def close (b : MailBatch) (interval : MailInterval) (reason : ReportReason) (createdAt : UInt64)
    (round : Option (ScrapeRound F64)) : Option MailReport × MailBatch :=
  if b.samples = [] then
    (none, b)
  else
    (some {
      id := ⟨b.run, b.nextSeq⟩
      createdAt, interval, reason
      snapshots := b.samples
      alerts := b.alerts
      round },
    { b with nextSeq := b.nextSeq + 1, samples := [], alerts := [] })

end MailBatch

/-- A call of the batch's. -/
inductive BatchCall where
  | offer (sample : MailedSnapshot) (now : ℕ)
  | noteAlerts (alerts : List (ActiveAlert F32))
  | close (interval : MailInterval) (reason : ReportReason) (createdAt : UInt64)
      (round : Option (ScrapeRound F64))

inductive BatchAnswer where
  | offered (offer : Offer)
  | noted (anyNew : Bool)
  | closed (report : Option MailReport)

namespace MailBatch

def call (b : MailBatch) : BatchCall → BatchAnswer × MailBatch
  | .offer sample now => (b.offer sample now).map .offered id
  | .noteAlerts alerts => (b.noteAlerts alerts).map .noted id
  | .close interval reason createdAt round =>
      (b.close interval reason createdAt round).map .closed id

/-- A sequence of calls, each with its answer. -/
def calls (b : MailBatch) : List BatchCall → List (BatchCall × BatchAnswer) × MailBatch
  | [] => ([], b)
  | call :: rest =>
      let (answer, b) := b.call call
      let (log, b) := b.calls rest
      ((call, answer) :: log, b)

end MailBatch

/-- When the last incident report was mailed. -/
structure IncidentPace where
  last : Option ℕ := none
  deriving DecidableEq, Repr

/-- Whether an incident report may go at `now`; if so, it counts as sent. -/
def IncidentPace.allows (pace : IncidentPace) (now : ℕ) : Bool × IncidentPace :=
  if pace.last.all fun last => incidentSpacing ≤ now - last then (true, ⟨some now⟩)
    else (false, pace)

/-! ### The client -/

/-- How often the client looks at the snapshot and the alerts. -/
def mailTick : ℕ := seconds 2

/-- What the client keeps between ticks. -/
structure MailClient where
  batch : MailBatch
  pace : IncidentPace
  nextReport : ℕ

/-- What one tick of the client finds. -/
structure MailTick where
  now : ℕ
  /-- The published snapshot, if any may still be served. -/
  fresh : Option (PublishedSnapshot SystemSnapshot)
  alerts : List (ActiveAlert F32)
  /-- The wall clock, in Unix seconds. -/
  createdAt : UInt64
  round : Option (ScrapeRound F64)

/-- The published snapshot, if it may still be served at `now`. -/
def freshSnapshot (published : PublishedSnapshot SystemSnapshot) (now : ℕ) :
    Option (PublishedSnapshot SystemSnapshot) :=
  if published.isFresh now then some published else none

/-- What a tick did: how it offered its snapshot, whether an incident became active, and its report.
-/
structure MailTicked where
  offered : Option Offer
  newIncident : Bool
  report : Option MailReport

/-- Offers the published snapshot, when fresh, and notes the active alerts. -/
def MailBatch.gather (b : MailBatch) (tick : MailTick) : (Option Offer × Bool) × MailBatch :=
  let (offered, b) := match tick.fresh with
    | some snapshot =>
        let (offer, b) := b.offer (.from snapshot) snapshot.readAt
        (some offer, b)
    | none => (none, b)
  let (newIncident, b) := b.noteAlerts tick.alerts
  ((offered, newIncident), b)

namespace MailClient

def new (run : AgentRun) (interval : MailInterval) (sampleInterval : SampleInterval) (now : ℕ) :
    MailClient :=
  ⟨MailBatch.new run sampleInterval, {}, now + interval.asDuration⟩

/-- Why a report is due at `now`, if one is. -/
def due (c : MailClient) (now : ℕ) (interval : MailInterval) (newIncident : Bool) :
    Option ReportReason × MailClient :=
  if c.nextReport ≤ now then
    (some .scheduled, { c with nextReport := now + interval.asDuration })
  else if newIncident then
    let (allowed, pace) := c.pace.allows now
    (if allowed then some .incident else none, { c with pace })
  else
    (none, c)

/-- Closes the batch into a report. -/
def close (c : MailClient) (interval : MailInterval) (tick : MailTick) (reason : ReportReason) :
    Option MailReport × MailClient :=
  let (report, batch) := c.batch.close interval reason tick.createdAt tick.round
  (report, { c with batch })

def tick (interval : MailInterval) (c : MailClient) (tick : MailTick) : MailTicked × MailClient :=
  let ((offered, newIncident), batch) := c.batch.gather tick
  match ({ c with batch }).due tick.now interval newIncident with
  | (some reason, c) =>
      let (report, c) := c.close interval tick reason
      (⟨offered, newIncident, report⟩, c)
  | (none, c) => (⟨offered, newIncident, none⟩, c)

/-- The ticks of a run, in order, and what each did. -/
def run (interval : MailInterval) (c : MailClient) : List MailTick → List MailTicked × MailClient
  | [] => ([], c)
  | tick :: ticks =>
      let (did, c) := c.tick interval tick
      let (rest, c) := c.run interval ticks
      (did :: rest, c)

end MailClient

end MonitoringAgent.Agent
