import MonitoringAgent.Library.Text
import MonitoringAgent.Model.Hub.Applications
import MonitoringAgent.Model.Uuid

/-! # Scrape rounds, as converted

What the hub keeps of a round: its id, its interval and its applications, under distinct names, and
the metric points it adds. An `f64` is its bits; narrowing one to an `f32` is a parameter. -/

namespace MonitoringAgent.Hub.Applications

open MonitoringAgent.Library

/-- An `f64`, by its bits. -/
abbrev F64 := BitVec 64

def F64.isFinite (value : F64) : Bool := value.extractLsb' 52 11 ≠ 0x7ff#11

/-- The most applications one round may report. -/
def maxApplications : ℕ := 16

/-- A byte an application's name may have. -/
def allowedInName (b : UInt8) : Bool :=
  (48 ≤ b && b ≤ 57) || (65 ≤ b && b ≤ 90) || (97 ≤ b && b ≤ 122) || b = 95 || b = 46 || b = 45

/-- An application's name: 1 to 64 bytes of `[A-Za-z0-9_.-]`, not `.` or `..`. -/
@[ext]
structure ApplicationName where
  text : String
  length : 1 ≤ text.utf8ByteSize ∧ text.utf8ByteSize ≤ 64
  allowed : (utf8 text).all allowedInName = true
  noDots : text ≠ "." ∧ text ≠ ".."

instance : DecidableEq ApplicationName := fun a b =>
  decidable_of_iff (a.text = b.text) ApplicationName.ext_iff.symm

def ApplicationName.parse (value : String) : Option ApplicationName :=
  if h : (1 ≤ value.utf8ByteSize ∧ value.utf8ByteSize ≤ 64) ∧
      (utf8 value).all allowedInName = true ∧
      value ≠ "." ∧ value ≠ ".." then
    some ⟨value, h.1, h.2.1, h.2.2⟩
  else none

inductive ApplicationHealth where
  | up
  | down
  | outOfService
  | unknown
  | unreachable
  deriving DecidableEq, Repr

/-- Reads the wire name; one this hub doesn't know is `unknown`. -/
def ApplicationHealth.fromWire (name : String) : ApplicationHealth :=
  if name = "up" then .up
  else if name = "down" then .down
  else if name = "out_of_service" then .outOfService
  else if name = "unreachable" then .unreachable
  else .unknown

/-- An application's version, not blank, at most 64 characters. -/
@[ext]
structure ApplicationVersion where
  text : String
  short : text.toList.length ≤ 64
  notBlank : text.toList.all isWhitespace = false

instance : DecidableEq ApplicationVersion := fun a b =>
  decidable_of_iff (a.text = b.text) ApplicationVersion.ext_iff.symm

theorem ApplicationVersion.short_take (raw : String) :
    (String.ofList (raw.toList.take 64)).toList.length ≤ 64 := by
  simp

theorem ApplicationVersion.notBlank_ofList {cut : List Char} (h : cut.all isWhitespace = false) :
    (String.ofList cut).toList.all isWhitespace = false := by
  simpa using h

/-- The version cut to its first 64 characters; none for a blank one. -/
def ApplicationVersion.parse (raw : String) : Option ApplicationVersion :=
  let cut := raw.toList.take 64
  if h : cut.all isWhitespace = false then
    some ⟨String.ofList cut, short_take raw, notBlank_ofList h⟩
  else none

inductive ApplicationGauge where
  | heapUsedBytes
  | heapMaxBytes
  | cpuPercent
  | liveThreads
  | gcPausePercent
  | httpRequestsPerSecond
  | httpServerErrorsPerSecond
  | httpMeanLatencyMs
  | dbConnectionsActive
  | uptimeSeconds
  deriving DecidableEq, Repr

namespace ApplicationGauge

/-- In the order of their declaration, which is their order in a map. -/
def all : List ApplicationGauge :=
  [.heapUsedBytes, .heapMaxBytes, .cpuPercent, .liveThreads, .gcPausePercent,
    .httpRequestsPerSecond, .httpServerErrorsPerSecond, .httpMeanLatencyMs,
    .dbConnectionsActive, .uptimeSeconds]

/-- The name on the wire and in metric names. -/
def wireName : ApplicationGauge → String
  | .heapUsedBytes => "heap_used_bytes"
  | .heapMaxBytes => "heap_max_bytes"
  | .cpuPercent => "cpu_percent"
  | .liveThreads => "live_threads"
  | .gcPausePercent => "gc_pause_percent"
  | .httpRequestsPerSecond => "http_requests_per_second"
  | .httpServerErrorsPerSecond => "http_server_errors_per_second"
  | .httpMeanLatencyMs => "http_mean_latency_ms"
  | .dbConnectionsActive => "db_connections_active"
  | .uptimeSeconds => "uptime_seconds"

def fromWire (name : String) : Option ApplicationGauge :=
  all.find? fun gauge => gauge.wireName = name

end ApplicationGauge

/-- An application's gauges from one scrape: finite values only. -/
structure Gauges where
  get : ApplicationGauge → Option F64
  finite : ∀ gauge value, get gauge = some value → value.isFinite = true

/-- The gauges in order. -/
def Gauges.entries (gauges : Gauges) : List (ApplicationGauge × F64) :=
  ApplicationGauge.all.filterMap fun gauge => (gauges.get gauge).map (gauge, ·)

/-- One application's report in a round. -/
structure ApplicationReport where
  name : ApplicationName
  health : ApplicationHealth
  version : Option ApplicationVersion
  gauges : Gauges

/-- Why a reported round was refused as a whole. -/
inductive ScrapeRoundError where
  | tooManyApplications
  | invalidApplicationName
  | duplicateApplicationName
  | invalidRun
  | invalidInterval
  deriving DecidableEq, Repr

/-- The agent run that minted a round and its place in that run. -/
structure RoundId where
  run : Uuid
  seq : ℕ
  deriving DecidableEq, Repr

/-- The time an agent leaves between two rounds, in seconds. -/
@[ext]
structure ScrapeInterval where
  secs : ℕ
  inRange : 10 ≤ secs ∧ secs ≤ 3600
  deriving Repr

instance : DecidableEq ScrapeInterval :=
  fun a b => decidable_of_iff (a.secs = b.secs) ScrapeInterval.ext_iff.symm

def ScrapeInterval.fromSecs (secs : ℕ) : Except ScrapeRoundError ScrapeInterval :=
  if h : 10 ≤ secs ∧ secs ≤ 3600 then .ok ⟨secs, h⟩ else .error .invalidInterval

/-- What a digest is taken of: the interval and every report. -/
structure RoundContent where
  interval : ScrapeInterval
  applications : List ApplicationReport

/-- One pass of an agent over its applications. -/
structure ScrapeRound where
  id : RoundId
  content : RoundContent
  few : content.applications.length ≤ maxApplications
  distinct : (content.applications.map ApplicationReport.name).Nodup

def ScrapeRound.new (id : RoundId) (interval : ScrapeInterval)
    (applications : List ApplicationReport) : Except ScrapeRoundError ScrapeRound :=
  if hfew : applications.length ≤ maxApplications then
    if hdistinct : (applications.map ApplicationReport.name).Nodup then
      .ok ⟨id, ⟨interval, applications⟩, hfew, hdistinct⟩
    else .error .duplicateApplicationName
  else .error .tooManyApplications

/-- `1.0` and `0.0`. -/
def upValue (health : ApplicationHealth) : Value := if health = .up then 0x3f800000#32 else 0#32

/-- The metric points of one application: each gauge, and whether it is up. -/
def reportPoints (toF32 : F64 → Value) (app : ApplicationReport) : List (String × Value) :=
  (app.gauges.entries.map fun (gauge, value) =>
    ("app:" ++ app.name.text ++ ":" ++ gauge.wireName, toF32 value)) ++
    [("app:" ++ app.name.text ++ ":up", upValue app.health)]

/-- The metric points one round adds to its system's history. -/
def applicationPoints (toF32 : F64 → Value) (round : ScrapeRound) : List (String × Value) :=
  round.content.applications.flatMap (reportPoints toF32)

/-- The round as its admission and its store see it: its id, its digest and its points. -/
def ScrapeRound.incoming (digest : RoundContent → ℕ) (toF32 : F64 → Value) (round : ScrapeRound) :
    Hub.ScrapeRound where
  id := ⟨round.id.run.hyphenated, round.id.seq⟩
  digest := digest round.content
  points := applicationPoints toF32 round

end MonitoringAgent.Hub.Applications
