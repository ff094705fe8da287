import MonitoringAgent.Model.Agent.MailReport
import MonitoringAgent.Model.Hub.MailReport

/-! # Wire shapes

The two programs declare the wire shapes of rounds and reports each on its own; what the agent
writes, the hub reads. -/

namespace MonitoringAgent.Wire

open MonitoringAgent.Library

/-! ### Rounds -/

/-- An application report as the hub reads it. -/
def reportDto (dto : Agent.ApplicationReportDto) : Hub.Applications.ApplicationReportDto :=
  ⟨dto.name, dto.health, dto.version, dto.gauges⟩

theorem read_reportDto (layout : Datum.Layout) (dto : Agent.ApplicationReportDto) :
    Hub.Applications.ApplicationReportDto.read (dto.datum layout) = some (reportDto dto) := by
  have hgauges := Datum.asTable_entries Datum.asFloat64_float64 dto.gauges
  rw [Hub.Applications.ApplicationReportDto.read, Agent.ApplicationReportDto.datum,
    Datum.fields_record layout (by rfl) (by decide)]
  simp [Datum.required, Datum.optional, hgauges, reportDto]

/-- A frame as the hub reads it. -/
def frameDto (frame : Agent.ApplicationFrame) : Hub.Applications.ApplicationFrameDto :=
  ⟨frame.kind, frame.run, frame.seq.toNat, frame.intervalSecs, frame.applications.map reportDto⟩

theorem read_frameDto (layout : Datum.Layout) (frame : Agent.ApplicationFrame) :
    Hub.Applications.ApplicationFrameDto.read (frame.datum layout) = some (frameDto frame) := by
  have happlications := Datum.asSeq_map
    (fun dto (_ : dto ∈ frame.applications) => read_reportDto layout dto)
  rw [Hub.Applications.ApplicationFrameDto.read, Agent.ApplicationFrame.datum,
    Datum.fields_record layout (by rfl) (by decide)]
  simp [Datum.required, happlications, frameDto]

/-- A poll response as the hub reads it. -/
def responseDto (response : Agent.ApplicationsResponse) :
    Hub.Applications.ApplicationsResponseDto :=
  ⟨response.round.map fun (run, seq) => ⟨run, seq.toNat⟩, response.intervalSecs,
    response.applications.map reportDto⟩

theorem read_responseDto (response : Agent.ApplicationsResponse) :
    Hub.Applications.ApplicationsResponseDto.read response.datum = some (responseDto response) := by
  have happlications := Datum.asSeq_map
    (fun dto (_ : dto ∈ response.applications) => read_reportDto .named dto)
  have hround : ∀ id : String × UInt64, Hub.Applications.RoundIdDto.read
      (.record .named [("run", .text id.1), ("seq", .nat id.2.toNat)]) =
        some ⟨id.1, id.2.toNat⟩ := by
    intro id
    rw [Hub.Applications.RoundIdDto.read, Datum.fields_record .named (by rfl) (by decide)]
    rfl
  have hround := Datum.asOption_option (fun _ => Datum.record_ne_null _ _) hround response.round
  rw [Hub.Applications.ApplicationsResponseDto.read, Agent.ApplicationsResponse.datum,
    Datum.fields_named (by simp)]
  simp [Datum.optional, Datum.defaulted, List.lookup_cons, hround, happlications, responseDto]

/-! ### What a round needs of a format -/

theorem interval_lt (round : Agent.ScrapeRound Agent.F64) : round.interval.secs < 2 ^ 64 := by
  have hrange := round.interval.inRange
  omega

section Carried

variable {p : Scalar → Prop} (hp : Scalar.Plain p)

include hp

theorem all_reportDto (layout : Datum.Layout) {dto : Agent.ApplicationReportDto}
    (hgauges : ∀ e ∈ dto.gauges.entries, p (.float64 e.2)) : (dto.datum layout).All p := by
  apply Datum.All.record
  simp only [List.forall_mem_cons]
  refine ⟨.scalar (hp.text _), .scalar (hp.text _), ?_, ?_, by simp⟩
  · exact Datum.All.option hp.null fun version _ => .scalar (hp.text version)
  · refine .map fun e he => ?_
    obtain ⟨entry, hentry, rfl⟩ := List.mem_map.mp he
    exact .scalar (hgauges entry hentry)

theorem all_reports (layout : Datum.Layout) {dtos : List Agent.ApplicationReportDto}
    (hgauges : ∀ dto ∈ dtos, ∀ e ∈ dto.gauges.entries, p (.float64 e.2)) :
    (Datum.seq (dtos.map (·.datum layout))).All p :=
  Datum.All.seqMap fun dto hdto => all_reportDto hp layout (hgauges dto hdto)

theorem all_frameDto (layout : Datum.Layout) {frame : Agent.ApplicationFrame}
    (hinterval : frame.intervalSecs < 2 ^ 64)
    (hgauges : ∀ dto ∈ frame.applications, ∀ e ∈ dto.gauges.entries, p (.float64 e.2)) :
    (frame.datum layout).All p := by
  apply Datum.All.record
  simp only [List.forall_mem_cons]
  exact ⟨.scalar (hp.text _), .scalar (hp.text _), .scalar (hp.nat _ (UInt64.toNat_lt _)),
    .scalar (hp.nat _ hinterval), all_reports hp layout hgauges, by simp⟩

theorem all_responseDto {response : Agent.ApplicationsResponse}
    (hinterval : ∀ secs, response.intervalSecs = some secs → secs < 2 ^ 64)
    (hgauges : ∀ dto ∈ response.applications, ∀ e ∈ dto.gauges.entries, p (.float64 e.2)) :
    response.datum.All p := by
  apply Datum.All.record
  simp only [List.forall_mem_cons]
  refine ⟨?_, ?_, ?_, all_reports hp .named hgauges, by simp⟩
  · refine Datum.All.option hp.null fun id _ => Datum.All.record .named ?_
    simp only [List.forall_mem_cons]
    exact ⟨.scalar (hp.text _), .scalar (hp.nat _ (UInt64.toNat_lt _)), by simp⟩
  · exact Datum.All.option hp.null fun secs hsecs => .scalar (hp.nat _ (hinterval secs hsecs))
  · exact Datum.All.option hp.null fun _ _ => .scalar (hp.nat _ (UInt64.toNat_lt _))

end Carried

/-! ### Mail reports -/

/-- The system info as the hub reads it. -/
def infoDto (info : Agent.MailedInfo) : Hub.MailIntake.InfoDto :=
  ⟨info.hostname, info.osName, info.kernel, info.cpuModel, info.cpuCores.toNat⟩

theorem read_infoDto (info : Agent.MailedInfo) :
    Hub.MailIntake.InfoDto.read info.datum = some (infoDto info) := by
  rw [Hub.MailIntake.InfoDto.read, Agent.MailedInfo.datum,
    Datum.fields_record .named (by rfl) (by decide)]
  rfl

/-- A sample as the hub reads it. -/
def snapshotDto (sample : Agent.MailedSnapshot) (newest : Bool) : Hub.MailIntake.SnapshotDto where
  collectedAt := sample.collectedAt.toNat
  info := if newest then some (infoDto sample.info) else none
  cpuPercent := sample.cpuPercent
  memoryPercent := sample.memoryPercent
  memoryTotalBytes := sample.memoryTotalBytes.toNat
  memoryTotalDisplay := sample.memoryTotalDisplay
  swapPercent := sample.swapPercent
  loadOne := sample.loadOne
  loadFive := sample.loadFive
  uptimeDisplay := sample.uptimeDisplay
  disks := sample.disks.map fun disk => ⟨disk.1, disk.2⟩

theorem read_snapshotDto (sample : Agent.MailedSnapshot) (newest : Bool) :
    Hub.MailIntake.SnapshotDto.read (sample.datum newest) = some (snapshotDto sample newest) := by
  have hdisk : ∀ disk ∈ sample.disks, Hub.MailIntake.DiskDto.read
      (.record .named [("mount_point", .text disk.1), ("usage_percent", .float32 disk.2)]) =
        some ⟨disk.1, disk.2⟩ := by
    intro disk _
    rw [Hub.MailIntake.DiskDto.read, Datum.fields_record .named (by rfl) (by decide)]
    rfl
  have hdisks := Datum.asSeq_map hdisk
  have hnull : ∀ info : Agent.MailedInfo, info.datum ≠ .null := fun _ => Datum.record_ne_null _ _
  have hinfo := Datum.asOption_option hnull read_infoDto (if newest then some sample.info else none)
  have hread : (if newest then some sample.info else none).map infoDto =
      if newest then some (infoDto sample.info) else none := by
    cases newest <;> rfl
  rw [hread] at hinfo
  rw [Hub.MailIntake.SnapshotDto.read, Agent.MailedSnapshot.datum, Datum.fields_named (by simp)]
  simp [Datum.required, Datum.optional, List.lookup_cons, hinfo, hdisks, snapshotDto]

/-- An alert as the hub reads it. -/
def alertDto (alert : Agent.MailedAlert) : Hub.MailIntake.AlertDto :=
  ⟨alert.id, alert.metric.wireName, alert.severity.wireName, alert.currentValue,
    alert.message, alert.firedAt⟩

theorem read_alertDto (alert : Agent.MailedAlert) :
    Hub.MailIntake.AlertDto.read alert.datum = some (alertDto alert) := by
  rw [Hub.MailIntake.AlertDto.read, Agent.MailedAlert.datum,
    Datum.fields_record .named (by rfl) (by decide)]
  rfl

/-- A report as the hub reads it; its last sample is its newest. -/
def mailReportDto (report : Agent.MailReport) : Hub.MailIntake.ReportDto where
  kind := "mail-report.v1"
  run := report.id.run.uuid.hyphenated
  seq := report.id.seq.toNat
  createdAt := report.createdAt.toNat
  intervalSecs := report.interval.secs
  reason := report.reason.wireName
  snapshots := report.snapshots.zipIdx.map fun (sample, i) =>
    snapshotDto sample (i = report.snapshots.length - 1)
  alerts := report.alerts.map alertDto
  round := report.round.map fun round => frameDto (.from round)

theorem read_mailReportDto (report : Agent.MailReport) :
    Hub.MailIntake.ReportDto.read report.datum = some (mailReportDto report) := by
  have hsnapshots := Datum.asSeq_map fun (pair : Agent.MailedSnapshot × ℕ)
    (_ : pair ∈ report.snapshots.zipIdx) => read_snapshotDto pair.1
      (pair.2 = report.snapshots.length - 1)
  have halerts := Datum.asSeq_map fun alert (_ : alert ∈ report.alerts) => read_alertDto alert
  have hnull : ∀ round, (Agent.ApplicationFrame.from round).datum .named ≠ .null :=
    fun _ => Datum.record_ne_null _ _
  have hround := Datum.asOption_option hnull
    (fun round => read_frameDto .named (.from round)) report.round
  rw [Hub.MailIntake.ReportDto.read, Agent.MailReport.datum,
    Datum.fields_record .named (by rfl) (by decide)]
  simp [Datum.required, Datum.optional, hsnapshots, halerts, hround, mailReportDto]

theorem sized_infoDto (info : Agent.MailedInfo) : info.datum.All Scalar.Sized := by
  apply Datum.All.record
  simp only [List.forall_mem_cons]
  exact ⟨.scalar trivial, .scalar trivial, .scalar trivial, .scalar trivial,
    .scalar (UInt64.toNat_lt _), by simp⟩

theorem sized_snapshotDto (sample : Agent.MailedSnapshot) (newest : Bool) :
    (sample.datum newest).All Scalar.Sized := by
  apply Datum.All.record
  simp only [List.forall_mem_cons]
  refine ⟨.scalar (UInt64.toNat_lt _), ?_, .scalar trivial, .scalar trivial,
    .scalar (UInt64.toNat_lt _), .scalar (UInt64.toNat_lt _), .scalar trivial, .scalar trivial,
    .scalar trivial, .scalar trivial, .scalar trivial, .scalar (UInt64.toNat_lt _),
    .scalar trivial, ?_, by simp⟩
  · exact Datum.All.option trivial fun info _ => sized_infoDto info
  · refine Datum.All.seqMap fun disk _ => Datum.All.record .named ?_
    simp only [List.forall_mem_cons]
    exact ⟨.scalar trivial, .scalar trivial, by simp⟩

/-- Every report is carried by a format that carries every float. -/
theorem sized_mailReportDto (report : Agent.MailReport) : report.datum.All Scalar.Sized := by
  have hinterval := report.interval.inRange
  rw [Agent.MailReport.datum]
  apply Datum.All.record
  simp only [List.forall_mem_cons]
  refine ⟨.scalar trivial, .scalar trivial, .scalar (UInt64.toNat_lt _),
    .scalar (UInt64.toNat_lt _), .scalar ?_, .scalar trivial, ?_, ?_, ?_, by simp⟩
  · rw [Scalar.Sized]
    omega
  · exact Datum.All.seqMap fun pair _ => sized_snapshotDto pair.1 _
  · refine Datum.All.seqMap fun alert _ => Datum.All.record .named ?_
    simp only [List.forall_mem_cons]
    exact ⟨.scalar trivial, .scalar trivial, .scalar trivial, .scalar trivial, .scalar trivial,
      .scalar trivial, by simp⟩
  · exact Datum.All.option trivial fun round _ =>
      all_frameDto Scalar.plain_sized .named (interval_lt round) fun _ _ _ _ => trivial

end MonitoringAgent.Wire
