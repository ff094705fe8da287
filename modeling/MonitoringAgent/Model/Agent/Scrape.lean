import MonitoringAgent.Library.Datum
import MonitoringAgent.Model.Agent.Alerts
import MonitoringAgent.Model.Agent.Applications

/-! # Scrape rounds

What one scrape of one application reports: its health, its version and its gauges, with rates from
the scrape before; every application's report in one round, and the round as it is pushed and
served. The rates are computed over any type of floats; on the wire an `f64` is its bits. -/

namespace MonitoringAgent.Agent

open MonitoringAgent.Library

/-! ### Gauges -/

/-- Floats, some of them finite. -/
class IsFinite (V : Type) where
  isFinite : V → Bool

export IsFinite (isFinite)

/-- An `f64`, by its bits. -/
abbrev F64 := BitVec 64

instance : IsFinite F64 := ⟨fun value => value.extractLsb' 52 11 ≠ 0x7ff#11⟩

/-- The `f64` operations a scrape uses. -/
structure F64Ops (V : Type) where
  zero : V
  hundred : V
  thousand : V
  sub : V → V → V
  mul : V → V → V
  div : V → V → V
  max : V → V → V
  lt : V → V → Bool
  le : V → V → Bool
  ofU32 : ℕ → V
  /-- `as_secs_f64` of a duration in nanoseconds. -/
  ofNanos : ℕ → V

variable {V : Type} [IsFinite V]

inductive ApplicationGauge where
  | heapUsedBytes
  | heapMaxBytes
  | cpuPercent
  | liveThreads
  | gcPausePercent
  | httpRequestsPerSecond
  | httpServerErrorsPerSecond
  | httpMeanLatencyMs
  | dbConnectionsActive
  | uptimeSeconds
  deriving DecidableEq, Repr

namespace ApplicationGauge

/-- In the order of their declaration, which is their order in a map. -/
def all : List ApplicationGauge :=
  [.heapUsedBytes, .heapMaxBytes, .cpuPercent, .liveThreads, .gcPausePercent,
    .httpRequestsPerSecond, .httpServerErrorsPerSecond, .httpMeanLatencyMs,
    .dbConnectionsActive, .uptimeSeconds]

/-- The name on the wire. -/
def wireName : ApplicationGauge → String
  | .heapUsedBytes => "heap_used_bytes"
  | .heapMaxBytes => "heap_max_bytes"
  | .cpuPercent => "cpu_percent"
  | .liveThreads => "live_threads"
  | .gcPausePercent => "gc_pause_percent"
  | .httpRequestsPerSecond => "http_requests_per_second"
  | .httpServerErrorsPerSecond => "http_server_errors_per_second"
  | .httpMeanLatencyMs => "http_mean_latency_ms"
  | .dbConnectionsActive => "db_connections_active"
  | .uptimeSeconds => "uptime_seconds"

end ApplicationGauge

/-- An application's gauges from one scrape: finite values only. -/
structure Gauges (V : Type) [IsFinite V] where
  get : ApplicationGauge → Option V
  finite : ∀ gauge value, get gauge = some value → isFinite value = true

namespace Gauges

/-- The finite values; of two values of a gauge, the later counts. -/
def fromValues (values : List (ApplicationGauge × Option V)) : Gauges V where
  get gauge := (values.filterMap fun (gauge, value) => (value.filter isFinite).map
    (gauge, ·)).reverse.lookup gauge
  finite := by
    intro gauge value h
    obtain ⟨before, after, hsplit, -⟩ := List.lookup_eq_some_iff.mp h
    have hmem : (gauge, value) ∈ (values.filterMap fun (gauge, value) =>
        (value.filter isFinite).map (gauge, ·)) := by
      rw [← List.mem_reverse, hsplit]
      exact List.mem_append_right _ List.mem_cons_self
    obtain ⟨⟨g, v⟩, -, hv⟩ := List.mem_filterMap.mp hmem
    simp only [Option.map_eq_some_iff, Option.filter_eq_some_iff, Prod.mk.injEq] at hv
    obtain ⟨w, ⟨-, hw⟩, -, rfl⟩ := hv
    exact hw

/-- The gauges in order. -/
def iter (gauges : Gauges V) : List (ApplicationGauge × V) :=
  ApplicationGauge.all.filterMap fun gauge => (gauges.get gauge).map (gauge, ·)

end Gauges

/-! ### One scrape -/

inductive ScrapeFailure where
  | connect
  | timeout
  | unauthorized
  | httpStatus (status : UInt16)
  | badBody
  deriving DecidableEq, Repr

inductive ReportedHealth where
  | up
  | down
  | outOfService
  | unknown
  deriving DecidableEq, Repr

inductive ApplicationHealth where
  | reported (health : ReportedHealth)
  | unreachable (failure : ScrapeFailure)
  deriving DecidableEq, Repr

inductive MeterValue (T : Type) where
  | published (value : T)
  | notPublished
  | unavailable

def MeterValue.finite : MeterValue V → Option V
  | .published value => if isFinite value then some value else none
  | .notPublished => none
  | .unavailable => none

structure TimerTotals (V : Type) where
  count : V
  totalSeconds : V

/-- One application's meters. -/
structure Meters (V : Type) where
  heapUsed : MeterValue V
  heapMax : MeterValue V
  cpuUsage : MeterValue V
  liveThreads : MeterValue V
  gcPauseSeconds : MeterValue V
  httpRequests : MeterValue (TimerTotals V)
  httpServerErrors : MeterValue V
  dbConnectionsActive : MeterValue V
  uptimeSeconds : MeterValue V

structure ReachedScrape (V : Type) where
  health : ReportedHealth
  version : Option String
  meters : Meters V
  ownRequests : UInt32

inductive RawScrape (V : Type) where
  | unreachable (failure : ScrapeFailure)
  | reached (scrape : ReachedScrape V)

/-- An application's version, not blank, at most 64 characters. -/
structure ApplicationVersion where
  text : String
  short : text.toList.length ≤ 64
  notBlank : text.toList.all isWhitespace = false
  deriving DecidableEq

/-- The version cut to its first 64 characters; none for a blank one. -/
def ApplicationVersion.parse (raw : String) : Option ApplicationVersion :=
  let cut := raw.toList.take 64
  if h : cut.all isWhitespace = false then
    some ⟨String.ofList cut, by simp [cut], by simpa using h⟩
  else none

inductive ApplicationReport (V : Type) [IsFinite V] where
  | unreachable (failure : ScrapeFailure)
  | reached (health : ReportedHealth) (version : Option ApplicationVersion) (gauges : Gauges V)

def ApplicationReport.health : ApplicationReport V → ApplicationHealth
  | .unreachable failure => .unreachable failure
  | .reached health _ _ => .reported health

/-! ### Rates -/

structure CounterSample (V : Type) where
  value : V
  «at» : ℕ

def ratePerSecond (ops : F64Ops V) (prev : Option (CounterSample V)) (curr : CounterSample V) :
    Option V := do
  let prev ← prev
  if ops.lt curr.value prev.value then none
  else
    if curr.at < prev.at then none
    else
      let elapsed := ops.ofNanos (curr.at - prev.at)
      (some (ops.div (ops.sub curr.value prev.value) elapsed)).filter isFinite

structure Counters (V : Type) where
  requests : Option V
  requestSeconds : Option V
  serverErrors : Option V
  gcPauseSeconds : Option V
  uptimeSeconds : Option V

namespace Counters

def «of» (ops : F64Ops V) (meters : Meters V) : Counters V :=
  let finite (value : V) := (some value).filter isFinite
  let (requests, requestSeconds) := match meters.httpRequests with
    | .published timer => (finite timer.count, finite timer.totalSeconds)
    | .notPublished | .unavailable => (none, none)
  let serverErrors := match meters.httpServerErrors with
    -- Requests are published and no server error is: none has happened yet.
    | .notPublished => if requests.isSome then some ops.zero else none
    | value => value.finite
  { requests, requestSeconds, serverErrors
    gcPauseSeconds := meters.gcPauseSeconds.finite
    uptimeSeconds := meters.uptimeSeconds.finite }

/-- Whether the application restarted in between: any counter went down. -/
def resetBefore (ops : F64Ops V) (c next : Counters V) : Bool :=
  [(c.requests, next.requests), (c.requestSeconds, next.requestSeconds),
    (c.serverErrors, next.serverErrors), (c.gcPauseSeconds, next.gcPauseSeconds),
    (c.uptimeSeconds, next.uptimeSeconds)].any fun pair =>
      match pair with
      | (some prev, some curr) => ops.lt curr prev
      | _ => false

end Counters

/-- What a scrape leaves for the next one's rates. -/
structure Baseline (V : Type) where
  counters : Counters V
  «at» : ℕ
  ownRequests : UInt32

structure Rates (V : Type) where
  requestsPerSecond : Option V := none
  serverErrorsPerSecond : Option V := none
  meanLatencyMs : Option V := none
  gcPausePercent : Option V := none

namespace Baseline

def meanLatencyMs (ops : F64Ops V) (b : Baseline V) (counters : Counters V) : Option V := do
  let count := ops.sub (← counters.requests) (← b.counters.requests)
  let seconds := ops.sub (← counters.requestSeconds) (← b.counters.requestSeconds)
  if ops.lt ops.zero count then some (ops.mul (ops.div seconds count) ops.thousand) else none

/-- The rates from this baseline to counters read at `now`. -/
def ratesTo (ops : F64Ops V) (b : Baseline V) (counters : Counters V) (now : ℕ) : Rates V :=
  let rate (prev curr : Option V) := curr.bind fun curr =>
    ratePerSecond ops (prev.map (⟨·, b.at⟩)) ⟨curr, now⟩
  -- The agent's own requests from the previous scrape are taken out, never below nothing.
  let own := ops.ofU32 b.ownRequests.toNat
  let netRequests := counters.requests.bind fun curr => b.counters.requests.map fun prev =>
    ops.max (ops.sub curr own) prev
  { requestsPerSecond := rate b.counters.requests netRequests
    serverErrorsPerSecond := rate b.counters.serverErrors counters.serverErrors
    meanLatencyMs := b.meanLatencyMs ops counters
    gcPausePercent := (rate b.counters.gcPauseSeconds counters.gcPauseSeconds).map
      (ops.mul · ops.hundred) }

end Baseline

def ApplicationGauge.derive (ops : F64Ops V) (meters : Meters V) (rates : Rates V) :
    ApplicationGauge → Option V :=
  let nonNegative (value : MeterValue V) := value.finite.filter (ops.le ops.zero)
  fun
  | .heapUsedBytes => meters.heapUsed.finite
  | .heapMaxBytes => nonNegative meters.heapMax
  | .cpuPercent => (nonNegative meters.cpuUsage).map (ops.mul · ops.hundred)
  | .liveThreads => meters.liveThreads.finite
  | .gcPausePercent => rates.gcPausePercent
  | .httpRequestsPerSecond => rates.requestsPerSecond
  | .httpServerErrorsPerSecond => rates.serverErrorsPerSecond
  | .httpMeanLatencyMs => rates.meanLatencyMs
  | .dbConnectionsActive => meters.dbConnectionsActive.finite
  | .uptimeSeconds => meters.uptimeSeconds.finite

/-! ### Histories -/

/-- What the scrapes of one application left so far. -/
structure ScrapeHistory (V : Type) where
  baseline : Option (Baseline V) := none

namespace ScrapeHistory

def fold (ops : F64Ops V) (history : ScrapeHistory V) (scrape : ReachedScrape V) (now : ℕ) :
    ScrapeHistory V × ApplicationReport V :=
  let counters := Counters.of ops scrape.meters
  let rates :=
    ((history.baseline.filter fun baseline => !baseline.counters.resetBefore ops counters).map
    (·.ratesTo ops counters now)).getD {}
  let gauges := Gauges.fromValues
    (ApplicationGauge.all.map fun gauge => (gauge, gauge.derive ops scrape.meters rates))
  (⟨some ⟨counters, now, scrape.ownRequests⟩⟩,
    .reached scrape.health (scrape.version.bind ApplicationVersion.parse) gauges)

/-- Folds one scrape into the history and reports it. A failed scrape starts over. -/
def advance (ops : F64Ops V) (history : ScrapeHistory V) (raw : RawScrape V) (now : ℕ) :
    ScrapeHistory V × ApplicationReport V :=
  match raw with
  | .unreachable failure => ({}, .unreachable failure)
  | .reached scrape => history.fold ops scrape now

end ScrapeHistory

/-! ### Rounds -/

/-- A round: the agent run and its place in it. -/
structure RoundId where
  run : AgentRun
  seq : UInt64
  deriving DecidableEq, Repr

structure NamedReport (V : Type) [IsFinite V] where
  name : ApplicationName
  report : ApplicationReport V

/-- Every report from one pass over the applications. -/
structure ScrapeRound (V : Type) [IsFinite V] where
  id : RoundId
  interval : ScrapeInterval
  scrapedAt : UInt64
  applications : List (NamedReport V)

inductive HealthChange where
  | becameUnreachable (failure : ScrapeFailure)
  | recovered
  deriving DecidableEq, Repr

/-- The change in reachability worth a log line. -/
def healthChange (previous : Option ApplicationHealth) (current : ApplicationHealth) :
    Option HealthChange :=
  match previous, current with
  | some (.unreachable _), .unreachable _ => none
  | none, .unreachable failure => some (.becameUnreachable failure)
  | some (.reported _), .unreachable failure => some (.becameUnreachable failure)
  | some (.unreachable _), .reported _ => some .recovered
  | none, .reported _ => none
  | some (.reported _), .reported _ => none

section Watched

variable {crate : UrlCrate}

/-- One application as the scrape loop follows it. -/
structure WatchedApplication (crate : UrlCrate) (V : Type) where
  target : ApplicationTarget crate
  history : ScrapeHistory V
  lastHealth : Option ApplicationHealth

def WatchedApplication.new (target : ApplicationTarget crate) :
    WatchedApplication crate V := ⟨target, {}, none⟩

/-- Folds one scrape into the application's history. -/
def WatchedApplication.fold (ops : F64Ops V) (app : WatchedApplication crate V)
    (raw : RawScrape V) (now : ℕ) :
    WatchedApplication crate V × NamedReport V × Option HealthChange :=
  let (history, report) := app.history.advance ops raw now
  let health := report.health
  ({ app with history, lastHealth := some health }, ⟨app.target.name, report⟩,
    healthChange app.lastHealth health)

/-- Every application scraped at once, each folded at the time its own scrape finished. -/
def scrapeRound (ops : F64Ops V) (scraper : ApplicationTarget crate → RawScrape V × ℕ)
    (watched : List (WatchedApplication crate V)) :
    List (WatchedApplication crate V) × List (NamedReport V) :=
  let folded := watched.map fun app =>
    let (raw, now) := scraper app.target
    app.fold ops raw now
  (folded.map fun (app, _, _) => app, folded.map fun (_, report, _) => report)

/-- The applications after some rounds of the loop. -/
def watchedAfter (ops : F64Ops V) (apps : Applications crate)
    (scrapes : List (ApplicationTarget crate → RawScrape V × ℕ)) :
    List (WatchedApplication crate V) :=
  scrapes.foldl (fun watched scraper => (scrapeRound ops scraper watched).1)
    (apps.targets.map WatchedApplication.new)

/-- The round of the loop's next pass. -/
def roundAfter (ops : F64Ops V) (apps : Applications crate)
    (scrapes : List (ApplicationTarget crate → RawScrape V × ℕ))
    (scraper : ApplicationTarget crate → RawScrape V × ℕ) (id : RoundId) (scrapedAt : UInt64) :
    ScrapeRound V where
  id := id
  interval := apps.interval
  scrapedAt := scrapedAt
  applications := (scrapeRound ops scraper (watchedAfter ops apps scrapes)).2

end Watched

/-! ### On the wire -/

def healthWireName : ApplicationHealth → String
  | .reported .up => "up"
  | .reported .down => "down"
  | .reported .outOfService => "out_of_service"
  | .reported .unknown => "unknown"
  | .unreachable _ => "unreachable"

structure ApplicationReportDto where
  name : String
  health : String
  version : Option String
  gauges : Table String F64

namespace ApplicationReportDto

def «from» (named : NamedReport F64) : ApplicationReportDto where
  name := named.name.text
  health := healthWireName named.report.health
  version := match named.report with
    | .reached _ version _ => version.map ApplicationVersion.text
    | .unreachable _ => none
  gauges := match named.report with
    | .reached _ _ gauges =>
        gauges.iter.foldl (fun t (gauge, value) => t.insert gauge.wireName value) .empty
    | .unreachable _ => .empty

def datum (layout : Datum.Layout) (dto : ApplicationReportDto) : Datum :=
  .record layout [
    ("name", .text dto.name),
    ("health", .text dto.health),
    ("version", .option .text dto.version),
    ("gauges", .map (dto.gauges.entries.map fun e => (e.1, .float64 e.2)))]

end ApplicationReportDto

/-- One round, as a kind of push message beside the snapshot. -/
structure ApplicationFrame where
  kind : String
  run : String
  seq : UInt64
  intervalSecs : ℕ
  applications : List ApplicationReportDto

namespace ApplicationFrame

def «from» (round : ScrapeRound F64) : ApplicationFrame where
  kind := "applications.v1"
  run := round.id.run.uuid.hyphenated
  seq := round.id.seq
  intervalSecs := round.interval.secs
  applications := round.applications.map .from

def datum (layout : Datum.Layout) (frame : ApplicationFrame) : Datum :=
  .record layout [
    ("kind", .text frame.kind),
    ("run", .text frame.run),
    ("seq", .nat frame.seq.toNat),
    ("interval_secs", .nat frame.intervalSecs),
    ("applications", .seq (frame.applications.map (·.datum layout)))]

/-- The pushed frame, with its fields by position. -/
def encode (msgpack : Format) (round : ScrapeRound F64) : List UInt8 :=
  msgpack.encode ((ApplicationFrame.from round).datum .positional)

end ApplicationFrame

/-- The applications poll response. -/
structure ApplicationsResponse where
  round : Option (String × UInt64)
  intervalSecs : Option ℕ
  scrapedAt : Option UInt64
  applications : List ApplicationReportDto

namespace ApplicationsResponse

def «from» : Option (ScrapeRound F64) → ApplicationsResponse
  | none => ⟨none, none, none, []⟩
  | some round => {
      round := some (round.id.run.uuid.hyphenated, round.id.seq)
      intervalSecs := some round.interval.secs
      scrapedAt := some round.scrapedAt
      applications := round.applications.map .from }

def datum (response : ApplicationsResponse) : Datum :=
  .record .named [
    ("round", .option (fun (run, seq) => .record .named
      [("run", .text run), ("seq", .nat seq.toNat)])
      response.round),
    ("interval_secs", .option .nat response.intervalSecs),
    ("scraped_at", .option (fun scrapedAt => .nat scrapedAt.toNat) response.scrapedAt),
    ("applications", .seq (response.applications.map (·.datum .named)))]

/-- The body served for the round, as JSON. -/
def encode (json : Format) (round : Option (ScrapeRound F64)) : List UInt8 :=
  json.encode (ApplicationsResponse.from round).datum

end ApplicationsResponse

end MonitoringAgent.Agent
