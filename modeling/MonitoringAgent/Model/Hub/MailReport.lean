import MonitoringAgent.Model.Hub.ApplicationWire
import MonitoringAgent.Model.Hub.Mail

/-! # Mail reports as agents send them

An opened report's bytes, parsed: its wire shape and its bounds. Parsing a UUID is a parameter. -/

namespace MonitoringAgent.Hub.MailIntake

open MonitoringAgent.Library MonitoringAgent.Library.Datum
open MonitoringAgent.Hub.Applications (F64 ApplicationFrameDto)

/-! ### Wire shapes -/

structure InfoDto where
  hostname : String
  osName : String
  kernel : String
  cpuModel : String
  cpuCores : ℕ

def InfoDto.read (d : Datum) : Option InfoDto := do
  match ← d.fields ["hostname", "os_name", "kernel", "cpu_model", "cpu_cores"] with
  | [hostname, osName, kernel, cpuModel, cpuCores] =>
      return {
        hostname := ← required asText hostname
        osName := ← required asText osName
        kernel := ← required asText kernel
        cpuModel := ← required asText cpuModel
        cpuCores := ← required asNat cpuCores }
  | _ => none

structure DiskDto where
  mountPoint : String
  usagePercent : Value

def DiskDto.read (d : Datum) : Option DiskDto := do
  match ← d.fields ["mount_point", "usage_percent"] with
  | [mountPoint, usagePercent] =>
      return ⟨← required asText mountPoint, ← required asFloat32 usagePercent⟩
  | _ => none

/-- A sample; what else the agent sends of it is ignored. -/
structure SnapshotDto where
  collectedAt : ℕ
  info : Option InfoDto
  cpuPercent : Value
  memoryPercent : Value
  memoryTotalBytes : ℕ
  memoryTotalDisplay : String
  swapPercent : Value
  loadOne : F64
  loadFive : F64
  uptimeDisplay : String
  disks : List DiskDto

def SnapshotDto.read (d : Datum) : Option SnapshotDto := do
  match ← d.fields ["collected_at", "info", "cpu_percent", "memory_percent", "memory_total_bytes",
    "memory_total_display", "swap_percent", "load_one", "load_five", "uptime_display", "disks"] with
  | [collectedAt, info, cpuPercent, memoryPercent, memoryTotalBytes, memoryTotalDisplay,
      swapPercent, loadOne, loadFive, uptimeDisplay, disks] =>
      return {
        collectedAt := ← required asNat collectedAt
        info := ← optional InfoDto.read info
        cpuPercent := ← required asFloat32 cpuPercent
        memoryPercent := ← required asFloat32 memoryPercent
        memoryTotalBytes := ← required asNat memoryTotalBytes
        memoryTotalDisplay := ← required asText memoryTotalDisplay
        swapPercent := ← required asFloat32 swapPercent
        loadOne := ← required asFloat64 loadOne
        loadFive := ← required asFloat64 loadFive
        uptimeDisplay := ← required asText uptimeDisplay
        disks := ← required (asSeq DiskDto.read) disks }
  | _ => none

structure AlertDto where
  id : String
  metric : String
  severity : String
  currentValue : Value
  message : String
  firedAt : String

def AlertDto.read (d : Datum) : Option AlertDto := do
  match ← d.fields ["id", "metric", "severity", "current_value", "message", "fired_at"] with
  | [id, metric, severity, currentValue, message, firedAt] =>
      return {
        id := ← required asText id
        metric := ← required asText metric
        severity := ← required asText severity
        currentValue := ← required asFloat32 currentValue
        message := ← required asText message
        firedAt := ← required asText firedAt }
  | _ => none

structure ReportDto where
  kind : String
  run : String
  seq : ℕ
  createdAt : ℕ
  intervalSecs : ℕ
  reason : String
  snapshots : List SnapshotDto
  alerts : List AlertDto
  round : Option ApplicationFrameDto

def ReportDto.read (d : Datum) : Option ReportDto := do
  match ← d.fields ["kind", "run", "seq", "created_at", "interval_secs", "reason", "snapshots",
    "alerts", "round"] with
  | [kind, run, seq, createdAt, intervalSecs, reason, snapshots, alerts, round] =>
      return {
        kind := ← required asText kind
        run := ← required asText run
        seq := ← required asNat seq
        createdAt := ← required asNat createdAt
        intervalSecs := ← required asNat intervalSecs
        reason := ← required asText reason
        snapshots := ← required (asSeq SnapshotDto.read) snapshots
        alerts := ← required (asSeq AlertDto.read) alerts
        round := ← optional ApplicationFrameDto.read round }
  | _ => none

/-! ### Reports -/

structure ReportId where
  run : Uuid
  seq : ℕ
  deriving DecidableEq, Repr

/-- Why the agent mailed the report; a reason this hub doesn't know is `other`. -/
inductive ReportReason where
  | scheduled
  | incident
  | other
  deriving DecidableEq, Repr

/-- A sample's values as the agent reported them. -/
structure ReportedSnapshot where
  cpu : Option Value
  memory : Option Value
  swap : Option Value
  load1 : Option F64
  load5 : Option F64
  disks : List (Option String × Option Value)
  deriving DecidableEq

/-- One sample, ready for the snapshot rule. -/
structure MailedSnapshot where
  time : SnapshotTime
  reported : ReportedSnapshot
  /-- None when the display breaks the display rule. -/
  uptime : Option String
  memory : Option MemoryCapacity
  info : Option InfoDto

structure MailedAlert where
  id : String
  metric : String
  severity : String
  currentValue : Value
  message : String
  firedAt : String
  deriving DecidableEq, Repr

/-- An opened, parsed report. -/
structure MailReport where
  id : ReportId
  createdAt : SnapshotTime
  interval : MailInterval
  reason : ReportReason
  /-- Oldest first. -/
  snapshots : List MailedSnapshot
  alerts : List MailedAlert
  round : Option ApplicationFrameDto

/-- Why an authentic report was refused. -/
inductive ReportRefusal where
  | notAReport
  | unknownKind
  | badRun
  | intervalOutOfRange
  | timeOutOfRange
  | noSnapshots
  | tooManySnapshots
  | sampleOutOfBounds
  | tooManyAlerts
  | fieldTooLong
  deriving DecidableEq, Repr

/-- The most samples one report carries. -/
def maxMailedSnapshots : ℕ := 60

/-- The most alerts one report carries. -/
def maxMailedAlerts : ℕ := 64

/-- How long before `createdAt − interval` a sample may be. -/
def sampleSlackBefore : ℕ := 120

/-- How long after `createdAt` a sample may be. -/
def sampleSlackAfter : ℕ := 5

/-- The longest alert message. -/
def maxMessageBytes : ℕ := 512

/-- The longest of an alert's other strings. -/
def maxFieldBytes : ℕ := 64

def time (seconds : ℕ) : Except ReportRefusal SnapshotTime :=
  (SnapshotTime.ofSecs seconds).elim (.error .timeOutOfRange) .ok

def reason (wire : String) : ReportReason :=
  if wire = "scheduled" then .scheduled else if wire = "incident" then .incident else .other

def MailedSnapshot.tryFrom (dto : SnapshotDto) : Except ReportRefusal MailedSnapshot := do
  let reported : ReportedSnapshot := {
    cpu := some dto.cpuPercent
    memory := some dto.memoryPercent
    swap := some dto.swapPercent
    load1 := some dto.loadOne
    load5 := some dto.loadFive
    disks := dto.disks.map fun disk => (some disk.mountPoint, some disk.usagePercent) }
  return {
    time := ← MailIntake.time dto.collectedAt
    reported
    uptime := if followsDisplayRule dto.uptimeDisplay then some dto.uptimeDisplay else none
    memory := MemoryCapacity.reported (some dto.memoryTotalDisplay) (some dto.memoryTotalBytes)
    info := dto.info }

/-- The samples, oldest first, each within the bounds around `createdAt`, a `u64`. -/
def samples (dtos : List SnapshotDto) (createdAt : ℕ) (interval : MailInterval) :
    Except ReportRefusal (List MailedSnapshot) := do
  if dtos.length = 0 then throw .noSnapshots
  if maxMailedSnapshots < dtos.length then throw .tooManySnapshots
  let earliest := createdAt - (interval.secs + sampleSlackBefore)
  let latest := min (createdAt + sampleSlackAfter) (2 ^ 64 - 1)
  let inBounds := dtos.all fun dto => earliest ≤ dto.collectedAt ∧ dto.collectedAt ≤ latest
  let ordered := (dtos.zip dtos.tail).all fun pair => pair.1.collectedAt ≤ pair.2.collectedAt
  if ¬ (inBounds ∧ ordered) then throw .sampleOutOfBounds
  dtos.mapM MailedSnapshot.tryFrom

def MailedAlert.tryFrom (dto : AlertDto) : Except ReportRefusal MailedAlert :=
  let tooLong := maxMessageBytes < dto.message.utf8ByteSize ∨
    [dto.id, dto.metric, dto.severity, dto.firedAt].any fun field =>
      maxFieldBytes < field.utf8ByteSize
  if tooLong then .error .fieldTooLong
  else .ok ⟨dto.id, dto.metric, dto.severity, dto.currentValue, dto.message, dto.firedAt⟩

variable (parseStr : String → Option Uuid)

def MailReport.tryFrom (dto : ReportDto) : Except ReportRefusal MailReport := do
  if dto.kind ≠ "mail-report.v1" then throw .unknownKind
  let run ← (parseStr dto.run).elim (.error .badRun) .ok
  let interval ← (MailInterval.ofSecs dto.intervalSecs).elim (.error .intervalOutOfRange) .ok
  let createdAt ← time dto.createdAt
  let snapshots ← samples dto.snapshots dto.createdAt interval
  if maxMailedAlerts < dto.alerts.length then throw .tooManyAlerts
  return {
    id := ⟨run, dto.seq⟩
    createdAt
    interval
    reason := MailIntake.reason dto.reason
    snapshots
    alerts := ← dto.alerts.mapM MailedAlert.tryFrom
    round := dto.round }

/-- Decodes an opened report's bytes into their wire shape. -/
def decodeDto (msgpack : Format) (bytes : List UInt8) : Option ReportDto :=
  (msgpack.decode bytes).bind ReportDto.read

/-- Parses an opened report's bytes. -/
def decode (msgpack : Format) (bytes : List UInt8) : Except ReportRefusal MailReport := do
  let dto ← (decodeDto msgpack bytes).elim (.error .notAReport) .ok
  MailReport.tryFrom parseStr dto

end MonitoringAgent.Hub.MailIntake
