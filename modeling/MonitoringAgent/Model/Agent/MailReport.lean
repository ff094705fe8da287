import MonitoringAgent.Model.Agent.Scrape
import MonitoringAgent.Model.Agent.Snapshot

/-! # Mail reports

What one message carries, and its wire shape: every record by field name, so a later field is one a
hub ignores. An `f32` is its bits. -/

namespace MonitoringAgent.Agent

open MonitoringAgent.Library

/-- An `f32`, by its bits. -/
abbrev F32 := BitVec 32

/-! ### Reports -/

/-- The time between scheduled reports, in seconds. -/
@[ext]
structure MailInterval where
  secs : ℕ
  inRange : 60 ≤ secs ∧ secs ≤ 86400
  deriving Repr

instance : DecidableEq MailInterval :=
  fun a b => decidable_of_iff (a.secs = b.secs) MailInterval.ext_iff.symm

def MailInterval.tryFrom (secs : ℕ) : Option MailInterval :=
  if h : 60 ≤ secs ∧ secs ≤ 86400 then some ⟨secs, h⟩ else none

/-- One report: the agent run and its place in it, from 1. -/
structure ReportId where
  run : AgentRun
  seq : UInt64
  deriving DecidableEq, Repr

inductive ReportReason where
  | scheduled
  /-- An alert incident became active. -/
  | incident
  deriving DecidableEq, Repr

/-- What the system said about itself. -/
structure MailedInfo where
  hostname : String
  osName : String
  kernel : String
  cpuModel : String
  cpuCores : UInt64
  deriving DecidableEq, Repr

/-- One kept sample. -/
structure MailedSnapshot where
  collectedAt : UInt64
  info : MailedInfo
  cpuPercent : F32
  memoryPercent : F32
  memoryUsedBytes : UInt64
  memoryTotalBytes : UInt64
  memoryTotalDisplay : String
  swapPercent : F32
  loadOne : F64
  loadFive : F64
  loadFifteen : F64
  uptimeSeconds : UInt64
  uptimeDisplay : String
  /-- Each disk's mount point and usage percent. -/
  disks : List (String × F32)
  deriving DecidableEq, Repr

/-- The system's state, as far as a report reads it. -/
structure SystemSnapshot where
  hostname : String
  osPrettyName : String
  kernel : String
  cpuModel : String
  cpuLogicalCores : UInt64
  cpuUsagePercent : F32
  memoryUsagePercent : F32
  memoryUsedBytes : UInt64
  memoryTotalBytes : UInt64
  memoryTotalDisplay : String
  swapUsagePercent : F32
  loadOne : F64
  loadFive : F64
  loadFifteen : F64
  uptimeSeconds : UInt64
  uptimeDisplay : String
  /-- Each disk's mount point and usage percent. -/
  disks : List (String × F32)
  deriving DecidableEq, Repr

/-- A published snapshot as a report has it. -/
def MailedSnapshot.from (published : PublishedSnapshot SystemSnapshot) : MailedSnapshot where
  collectedAt := published.collectedAt
  info := ⟨published.system.hostname, published.system.osPrettyName, published.system.kernel,
    published.system.cpuModel, published.system.cpuLogicalCores⟩
  cpuPercent := published.system.cpuUsagePercent
  memoryPercent := published.system.memoryUsagePercent
  memoryUsedBytes := published.system.memoryUsedBytes
  memoryTotalBytes := published.system.memoryTotalBytes
  memoryTotalDisplay := published.system.memoryTotalDisplay
  swapPercent := published.system.swapUsagePercent
  loadOne := published.system.loadOne
  loadFive := published.system.loadFive
  loadFifteen := published.system.loadFifteen
  uptimeSeconds := published.system.uptimeSeconds
  uptimeDisplay := published.system.uptimeDisplay
  disks := published.system.disks

@[simp] theorem MailedSnapshot.from_collectedAt (published : PublishedSnapshot SystemSnapshot) :
    (MailedSnapshot.from published).collectedAt = published.collectedAt := rfl

/-- The characters that fit in `max` bytes. -/
def takeBytes (max : ℕ) : List Char → List Char
  | [] => []
  | c :: cs => if c.utf8Size ≤ max then c :: takeBytes (max - c.utf8Size) cs else []

/-- The longest start of a text that is at most `max` bytes and ends on a character boundary. -/
def cutTo (text : String) (max : ℕ) : String := String.ofList (takeBytes max text.toList)

/-- The longest alert message a report carries, in bytes. -/
def maxAlertMessageBytes : ℕ := 512

/-- One alert incident that was active since the previous report. -/
structure MailedAlert where
  id : String
  metric : AlertMetric
  severity : AlertSeverity
  currentValue : F32
  message : String
  firedAt : String
  deriving DecidableEq, Repr

def MailedAlert.from (alert : ActiveAlert F32) : MailedAlert where
  id := alert.id
  metric := alert.rule.metric
  severity := alert.rule.severity
  currentValue := alert.currentValue
  message := cutTo alert.message maxAlertMessageBytes
  firedAt := alert.firedAt

/-- What one message carries, its samples oldest first. -/
structure MailReport where
  id : ReportId
  createdAt : UInt64
  interval : MailInterval
  reason : ReportReason
  snapshots : List MailedSnapshot
  alerts : List MailedAlert
  round : Option (ScrapeRound F64)

/-! ### On the wire -/

def ReportReason.wireName : ReportReason → String
  | .scheduled => "scheduled"
  | .incident => "incident"

def AlertMetric.wireName : AlertMetric → String
  | .cpu => "cpu"
  | .memory => "memory"
  | .swap => "swap"
  | .disk => "disk"
  | .load1 => "load1"
  | .load5 => "load5"
  | .load15 => "load15"

def AlertSeverity.wireName : AlertSeverity → String
  | .info => "info"
  | .warning => "warning"
  | .critical => "critical"

def MailedInfo.datum (info : MailedInfo) : Datum :=
  .record .named [
    ("hostname", .text info.hostname),
    ("os_name", .text info.osName),
    ("kernel", .text info.kernel),
    ("cpu_model", .text info.cpuModel),
    ("cpu_cores", .nat info.cpuCores.toNat)]

/-- A sample's wire shape; only the newest carries the system info. -/
def MailedSnapshot.datum (sample : MailedSnapshot) (newest : Bool) : Datum :=
  .record .named [
    ("collected_at", .nat sample.collectedAt.toNat),
    ("info", .option MailedInfo.datum (if newest then some sample.info else none)),
    ("cpu_percent", .float32 sample.cpuPercent),
    ("memory_percent", .float32 sample.memoryPercent),
    ("memory_used_bytes", .nat sample.memoryUsedBytes.toNat),
    ("memory_total_bytes", .nat sample.memoryTotalBytes.toNat),
    ("memory_total_display", .text sample.memoryTotalDisplay),
    ("swap_percent", .float32 sample.swapPercent),
    ("load_one", .float64 sample.loadOne),
    ("load_five", .float64 sample.loadFive),
    ("load_fifteen", .float64 sample.loadFifteen),
    ("uptime_seconds", .nat sample.uptimeSeconds.toNat),
    ("uptime_display", .text sample.uptimeDisplay),
    ("disks", .seq (sample.disks.map fun (mountPoint, usagePercent) =>
      .record .named [("mount_point", .text mountPoint),
        ("usage_percent", .float32 usagePercent)]))]

def MailedAlert.datum (alert : MailedAlert) : Datum :=
  .record .named [
    ("id", .text alert.id),
    ("metric", .text alert.metric.wireName),
    ("severity", .text alert.severity.wireName),
    ("current_value", .float32 alert.currentValue),
    ("message", .text alert.message),
    ("fired_at", .text alert.firedAt)]

namespace MailReport

def datum (report : MailReport) : Datum :=
  let newest := report.snapshots.length - 1
  .record .named [
    ("kind", .text "mail-report.v1"),
    ("run", .text report.id.run.uuid.hyphenated),
    ("seq", .nat report.id.seq.toNat),
    ("created_at", .nat report.createdAt.toNat),
    ("interval_secs", .nat report.interval.secs),
    ("reason", .text report.reason.wireName),
    ("snapshots", .seq (report.snapshots.zipIdx.map fun (sample, i) => sample.datum (i = newest))),
    ("alerts", .seq (report.alerts.map MailedAlert.datum)),
    ("round", .option (fun round => (ApplicationFrame.from round).datum .named) report.round)]

/-- The plaintext that is sealed. -/
def encode (msgpack : Format) (report : MailReport) : List UInt8 := msgpack.encode report.datum

end MailReport

end MonitoringAgent.Agent
