import MonitoringAgent.Verification.Agent.Reports
import MonitoringAgent.Verification.Wire.Rounds
import MonitoringAgent.Verification.Wire.Seal

/-! # Mailed reports are accepted

The two programs declare the bounds of a report each on its own: the agent limits counts, spacing
and one text, the hub checks times, lengths and a total size. Only the total size refuses a report
of an agent whose clocks agree. -/

namespace MonitoringAgent.Wire

open MonitoringAgent.Library

/-! ### Samples -/

/-- The values of a sample as the hub keeps them. -/
def reportedOf (sample : Agent.MailedSnapshot) : Hub.MailIntake.ReportedSnapshot where
  cpu := some sample.cpuPercent
  memory := some sample.memoryPercent
  swap := some sample.swapPercent
  load1 := some sample.loadOne
  load5 := some sample.loadFive
  disks := sample.disks.map fun disk => (some disk.1, some disk.2)

/-- The hub's sample says what the agent's does. -/
structure SameSample (sample : Agent.MailedSnapshot) (newest : Bool)
    (s : Hub.MailIntake.MailedSnapshot) : Prop where
  time : s.time.seconds = sample.collectedAt.toNat
  reported : s.reported = reportedOf sample
  uptime : s.uptime = (some sample.uptimeDisplay).filter Hub.followsDisplayRule
  memory : s.memory = Hub.MemoryCapacity.reported (some sample.memoryTotalDisplay)
    (some sample.memoryTotalBytes.toNat)
  info : s.info = if newest then some (infoDto sample.info) else none

theorem ofSecs_eq {secs : ℕ} (h : secs < 2 ^ 63) : Hub.MailIntake.time secs = .ok ⟨secs, h⟩ := by
  rw [Hub.MailIntake.time, Hub.SnapshotTime.ofSecs, dif_pos h]
  rfl

theorem tryFrom_sample {sample : Agent.MailedSnapshot} (newest : Bool)
    (h : sample.collectedAt.toNat < 2 ^ 63) :
    ∃ s, Hub.MailIntake.MailedSnapshot.tryFrom (snapshotDto sample newest) = .ok s ∧
      SameSample sample newest s := by
  have htime := ofSecs_eq h
  rw [Hub.MailIntake.MailedSnapshot.tryFrom]
  dsimp only [snapshotDto]
  rw [htime, except_ok_bind]
  refine ⟨_, rfl, rfl, ?_, ?_, rfl, rfl⟩
  · rw [reportedOf, List.map_map]
    rfl
  · dsimp only
    split_ifs with hrule
    · simp [Option.filter, hrule]
    · simp [Option.filter, hrule]

/-- Values in order are in order pair by pair. -/
theorem zip_tail_of_pairwise {α : Type} {r : α → α → Prop} {l : List α} (h : l.Pairwise r) :
    ∀ pair ∈ l.zip l.tail, r pair.1 pair.2 := by
  induction h with
  | nil => exact fun pair hpair => absurd hpair List.not_mem_nil
  | @cons a l hhead htail ih =>
      cases l with
      | nil => exact fun pair hpair => absurd hpair List.not_mem_nil
      | cons b l =>
          intro pair hpair
          obtain rfl | hpair := List.mem_cons.mp hpair
          · exact hhead b List.mem_cons_self
          · exact ih pair hpair

variable {mail : Agent.MailInterval} {report : Agent.MailReport}

/-- The hub takes the samples of a report within the agent's bounds. -/
theorem samples_accepted (h : Agent.Bounded mail report) {interval : Hub.MailInterval}
    (hinterval : interval.secs = mail.secs) :
    ∃ out, Hub.MailIntake.samples (mailReportDto report).snapshots report.createdAt.toNat interval =
      .ok out ∧
      List.Forall₂ (fun pair s => SameSample pair.1 (pair.2 = report.snapshots.length - 1) s)
        report.snapshots.zipIdx out := by
  have hlength : (mailReportDto report).snapshots.length = report.snapshots.length := by
    rw [mailReportDto, List.length_map, List.length_zipIdx]
  have hmem : ∀ dto ∈ (mailReportDto report).snapshots, ∃ sample ∈ report.snapshots,
      dto.collectedAt = sample.collectedAt.toNat := by
    intro dto hdto
    obtain ⟨pair, hpair, rfl⟩ := List.mem_map.mp hdto
    exact ⟨pair.1, List.fst_mem_of_mem_zipIdx hpair, rfl⟩
  have htimes : (mailReportDto report).snapshots.Pairwise fun a b =>
      a.collectedAt ≤ b.collectedAt := by
    have hpairs : (report.snapshots.zipIdx.map Prod.fst).Pairwise fun a b =>
        a.collectedAt.toNat ≤ b.collectedAt.toNat := by
      rw [List.zipIdx_map_fst]
      exact h.sorted
    have hin : report.snapshots.zipIdx.Pairwise fun a b => a.1.collectedAt.toNat ≤
        b.1.collectedAt.toNat :=
      (List.pairwise_map (R := fun a b : Agent.MailedSnapshot => a.collectedAt.toNat ≤
        b.collectedAt.toNat)).mp hpairs
    exact List.pairwise_map.mpr hin
  have hpositive : 0 < report.snapshots.length := List.length_pos_iff.mpr h.nonempty
  have hfew := h.few
  have hbounds : ((mailReportDto report).snapshots.all fun dto =>
      report.createdAt.toNat - (interval.secs + Hub.MailIntake.sampleSlackBefore) ≤
        dto.collectedAt ∧
        dto.collectedAt ≤ min (report.createdAt.toNat + Hub.MailIntake.sampleSlackAfter)
          (2 ^ 64 - 1)) = true := by
    rw [List.all_eq_true]
    intro dto hdto
    obtain ⟨sample, hsample, htime⟩ := hmem dto hdto
    have hrecent := h.recent sample hsample
    have hpast := h.past sample hsample
    have hlt := h.created_lt
    rw [decide_eq_true_iff, htime, hinterval, Hub.MailIntake.sampleSlackBefore,
      Hub.MailIntake.sampleSlackAfter]
    omega
  have hordered :
      (((mailReportDto report).snapshots.zip (mailReportDto report).snapshots.tail).all fun pair =>
      pair.1.collectedAt ≤ pair.2.collectedAt) = true := by
    rw [List.all_eq_true]
    exact fun pair hpair => decide_eq_true (zip_tail_of_pairwise htimes pair hpair)
  rw [Hub.MailIntake.samples, if_neg (by omega),
    if_neg (by rw [hlength]; exact Nat.not_lt.mpr hfew)]
  dsimp only
  rw [if_neg (not_not.mpr ⟨hbounds, hordered⟩), mailReportDto, List.mapM_map]
  obtain ⟨out, hout, hsame⟩ := except_mapM_forall₂ fun pair hpair =>
    tryFrom_sample (decide (pair.2 = report.snapshots.length - 1))
      (lt_of_le_of_lt (h.past pair.1 (List.fst_mem_of_mem_zipIdx hpair)) h.created_lt)
  exact ⟨out, hout, hsame⟩

/-! ### Alerts -/

/-- An alert as the hub keeps it. -/
def mailedAlertOf (alert : Agent.MailedAlert) : Hub.MailIntake.MailedAlert :=
  ⟨alert.id, alert.metric.wireName, alert.severity.wireName, alert.currentValue,
    alert.message, alert.firedAt⟩

theorem tryFrom_alert {alert : Agent.MailedAlert} (h : Agent.Brief alert) :
    Hub.MailIntake.MailedAlert.tryFrom (alertDto alert) = .ok (mailedAlertOf alert) := by
  have hmetric : alert.metric.wireName.utf8ByteSize ≤ 64 := by cases alert.metric <;> decide
  have hseverity : alert.severity.wireName.utf8ByteSize ≤ 64 := by cases alert.severity <;> decide
  have hfields : ∀ field ∈ [alert.id, alert.metric.wireName, alert.severity.wireName,
      alert.firedAt], field.utf8ByteSize ≤ 64 := by
    simp only [List.forall_mem_cons]
    exact ⟨h.id_le, hmetric, hseverity, h.firedAt_le,
      fun field hmem => absurd hmem List.not_mem_nil⟩
  refine if_neg ?_
  rintro (hlong | hlong)
  · exact Nat.not_lt.mpr h.message_le hlong
  · obtain ⟨field, hmem, hlong⟩ := List.any_eq_true.mp hlong
    exact Nat.not_lt.mpr (hfields field hmem) (of_decide_eq_true hlong)

/-! ### Reports -/

/-- Why the report was mailed, in the hub's words. -/
def reasonOf : Agent.ReportReason → Hub.MailIntake.ReportReason
  | .scheduled => .scheduled
  | .incident => .incident

/-- The hub's report says what the agent's does. -/
structure SameMail (report : Agent.MailReport) (accepted : Hub.MailIntake.MailReport) : Prop where
  run : accepted.id.run = report.id.run.uuid
  seq : accepted.id.seq = report.id.seq.toNat
  createdAt : accepted.createdAt.seconds = report.createdAt.toNat
  interval : accepted.interval.secs = report.interval.secs
  reason : accepted.reason = reasonOf report.reason
  /-- In order, and the newest with the system info. -/
  snapshots : List.Forall₂ (fun pair s => SameSample pair.1
    (pair.2 = report.snapshots.length - 1) s)
    report.snapshots.zipIdx accepted.snapshots
  alerts : accepted.alerts = report.alerts.map mailedAlertOf
  round : accepted.round = report.round.map fun round => frameDto (.from round)

variable {parseStr : String → Option Uuid}

/-- The hub's bounds admit every report within the agent's. -/
theorem tryFrom_mail (hparse : ∀ u : Uuid, parseStr u.hyphenated = some u)
    (h : Agent.Bounded mail report) :
    ∃ accepted, Hub.MailIntake.MailReport.tryFrom parseStr (mailReportDto report) = .ok accepted ∧
      SameMail report accepted := by
  have hrange := report.interval.inRange
  have hkind : ¬ (mailReportDto report).kind ≠ "mail-report.v1" := not_not.mpr rfl
  have hrun : parseStr (mailReportDto report).run = some report.id.run.uuid := hparse _
  have hinterval : Hub.MailInterval.ofSecs (mailReportDto report).intervalSecs =
      some ⟨report.interval.secs, hrange⟩ := dif_pos hrange
  have htime : Hub.MailIntake.time (mailReportDto report).createdAt = .ok ⟨_, h.created_lt⟩ :=
    ofSecs_eq h.created_lt
  have hsecs : (⟨report.interval.secs, hrange⟩ : Hub.MailInterval).secs = mail.secs :=
    congrArg Agent.MailInterval.secs h.interval_eq
  obtain ⟨out, hsamples, hsame⟩ := samples_accepted h hsecs
  have hsamples : Hub.MailIntake.samples (mailReportDto report).snapshots
      (mailReportDto report).createdAt
      ⟨report.interval.secs, hrange⟩ = .ok out := hsamples
  have hfew : ¬ Hub.MailIntake.maxMailedAlerts < (mailReportDto report).alerts.length := by
    rw [mailReportDto, List.length_map]
    exact Nat.not_lt.mpr h.fewAlerts
  have halerts : (mailReportDto report).alerts.mapM Hub.MailIntake.MailedAlert.tryFrom =
      .ok (report.alerts.map mailedAlertOf) := by
    rw [mailReportDto, List.mapM_map]
    exact except_mapM_ok fun alert halert => tryFrom_alert (h.brief alert halert)
  have hreason : Hub.MailIntake.reason (mailReportDto report).reason = reasonOf report.reason := by
    rw [mailReportDto]
    cases report.reason <;> rfl
  refine ⟨⟨⟨report.id.run.uuid, report.id.seq.toNat⟩, ⟨report.createdAt.toNat, h.created_lt⟩,
    ⟨report.interval.secs, hrange⟩, reasonOf report.reason, out, report.alerts.map mailedAlertOf,
    report.round.map fun round => frameDto (.from round)⟩, ?_,
      ⟨rfl, rfl, rfl, rfl, rfl, hsame, rfl, rfl⟩⟩
  rw [Hub.MailIntake.MailReport.tryFrom, if_neg hkind, hrun, hinterval, htime]
  simp only [Option.elim_some, except_ok_bind, hsamples, halerts, hreason]
  rw [if_neg hfew]
  rfl

/-! ### The whole way -/

section Sealed

variable {hkdf : Hub.Hkdf} {aead : Aead Hub.MailKey Hub.Nonce} {master : Hub.MailMasterKey}

/-- What the agent seals under the key of its id, the hub opens. -/
theorem open_sealed (haead : aead.RoundTrips) {id : Agent.AgentId} {plaintext sealed : List UInt8}
    {nonce : Hub.Nonce} (hseal : Agent.seal aead id plaintext
      (Hub.MailMasterKey.derive hkdf master id.text) nonce = .ok sealed) :
    Hub.open hkdf aead sealed master = .ok (id.text, plaintext) := by
  obtain ⟨head, ciphertext, hhead, hcipher, rfl⟩ := seal_eq_ok.mp hseal
  have hnonce : nonce.toList.length = 24 := by simp
  rw [open_parsed (parse_sealed hhead (Agent.tryFrom_agentId id) hnonce ciphertext) rfl]
  simp only [haead _ _ _ _ _ hcipher]

theorem dearmour_armour (sealed : List UInt8) :
    Hub.dearmour (Agent.armour sealed) =
      if sealed.length > Hub.maxSealedBytes then .error .tooLarge else .ok sealed := by
  have hend : ¬ EndsUnfinished [] := by
    rintro ⟨dashes, -, hsuffix⟩
    have hhead := List.append_eq_nil_iff.mp (List.suffix_nil.mp hsuffix)
    exact absurd hhead.1 (by decide +kernel)
  have hnone : ¬ Hub.armourBegin <:+: [] := by
    rw [List.infix_nil]
    decide +kernel
  have harmoured : Hub.dearmour ([] ++ Agent.armour sealed ++ []) = _ :=
    dearmour_armoured (rewrapped_armour sealed) hnone hend
  rwa [List.nil_append, List.append_nil] at harmoured

end Sealed

/-- Whatever a mail client reports, on ticks at most 60 s apart and a wall clock that advances with
them, the hub accepts as the same report when it is sealed under the agent's key in at most 512 KiB:
no bound on its times, samples, alerts or texts refuses it. A larger one is refused for its size. -/
theorem mailed_reports_accepted (hkdf : Hub.Hkdf) {aead : Aead Hub.MailKey Hub.Nonce}
    (haead : aead.RoundTrips) (master : Hub.MailMasterKey) {msgpack : Format}
    (hmsgpack : msgpack.Carries Scalar.Sized) (hparse : ∀ u : Uuid, parseStr u.hyphenated = some u)
    (id : Agent.AgentId) (run : Agent.AgentRun) (mail : Agent.MailInterval)
    (interval : Agent.SampleInterval) {epoch : ℤ} {start : ℕ} {ticks : List Agent.MailTick}
    (htime : Agent.OnTime epoch start ticks) {f : Agent.Floats Agent.F32}
    (hactive : ∀ tick ∈ ticks, Agent.ActiveIn f run tick.alerts) :
    ∀ did ∈ (Agent.started run mail interval start ticks).1, ∀ report, did.report = some report →
      ∀ nonce sealed, Agent.seal aead id (report.encode msgpack)
          (Hub.MailMasterKey.derive hkdf master id.text) nonce = .ok sealed →
        (sealed.length ≤ Hub.maxSealedBytes →
          Hub.dearmour (Agent.armour sealed) = .ok sealed ∧
          Hub.open hkdf aead sealed master = .ok (id.text, report.encode msgpack) ∧
          ∃ accepted, Hub.MailIntake.decode parseStr msgpack (report.encode msgpack) =
            .ok accepted ∧
            SameMail report accepted) ∧
        (Hub.maxSealedBytes < sealed.length → Hub.dearmour
          (Agent.armour sealed) = .error .tooLarge) := by
  intro did hdid report hreport nonce sealed hseal
  have hbounded := Agent.reports_bounded run mail interval htime hactive did hdid report hreport
  rw [dearmour_armour]
  refine ⟨fun hfits => ⟨if_neg (Nat.not_lt.mpr hfits), open_sealed haead hseal, ?_⟩,
    fun hlong => if_pos hlong⟩
  obtain ⟨accepted, haccepted, hsame⟩ := tryFrom_mail hparse hbounded
  refine ⟨accepted, ?_, hsame⟩
  rw [Hub.MailIntake.decode, decode_mailReport hmsgpack]
  exact haccepted

/-! A client that reads one sample and mails it a minute later. -/

def minuteTicks : List Agent.MailTick :=
  [⟨0, some ⟨Agent.idleSystem, 0, 0, 0⟩, [], 0, none⟩, ⟨Agent.seconds 60, none, [], 60, none⟩]

theorem minute_inRange : 60 ≤ 60 ∧ 60 ≤ 86400 := by decide

def minuteReport : Agent.MailReport where
  id := ⟨⟨⟨7⟩⟩, 1⟩
  createdAt := 60
  interval := ⟨60, minute_inRange⟩
  reason := .scheduled
  snapshots := [.from ⟨Agent.idleSystem, 0, 0, 0⟩]
  alerts := []
  round := none

def minuteSealing : Sealing Hub.MailKey Hub.Nonce where
  key := webKey
  nonce := ninesNonce
  aad := webSealing.aad
  msg := minuteReport.encode packed

/-- Floats by their bits, which order as they do when none is negative. -/
def bitFloats : Agent.Floats Agent.F32 where
  zero := 0
  max a b := if a ≤ b then b else a
  ofCores cores := BitVec.ofNat 32 cores
  eq a b := a = b
  lt a b := a < b
  le a b := a ≤ b
  oneDecimal bits := toString bits.toNat

/-- A cipher that puts 16 zeros for the tag. -/
def minuteCipher : Aead Hub.MailKey Hub.Nonce :=
  .single minuteSealing (minuteSealing.msg ++ List.replicate 16 0)

theorem mailed_reports_accepted_minute :
    let sealed := webSealing.aad ++ ninesNonce.toList ++ (minuteSealing.msg ++ List.replicate 16 0)
    Hub.dearmour (Agent.armour sealed) = .ok sealed ∧
      Hub.open webHkdf minuteCipher sealed onesMaster = .ok ("web-01", minuteReport.encode packed) ∧
      ∃ accepted, Hub.MailIntake.decode Uuid.ofHyphenated packed (minuteReport.encode packed) =
        .ok accepted ∧
        accepted.id = ⟨⟨7⟩, 1⟩ ∧ accepted.snapshots.length = 1 := by
  have htime : Agent.OnTime 0 0 minuteTicks := by
    refine ⟨?_, fun tick _ => Nat.zero_le _, ?_⟩
    · simp only [minuteTicks, List.forall_mem_cons]
      refine ⟨⟨by decide, by decide, ?_⟩, ⟨by decide, by decide, ?_⟩,
        fun tick htick => absurd htick List.not_mem_nil⟩
      · rintro snapshot ⟨⟩
        exact ⟨le_rfl, rfl, by decide⟩
      · rintro snapshot ⟨⟩
    · simp [minuteTicks, Agent.seconds]
  have hnone : Agent.ActiveIn bitFloats ⟨⟨7⟩⟩ [] := by
    refine ⟨[], [], ?_, by decide, rfl⟩
    exact fun r now hop => absurd hop List.not_mem_nil
  have hactive : ∀ tick ∈ minuteTicks, Agent.ActiveIn bitFloats ⟨⟨7⟩⟩ tick.alerts := by
    simp only [minuteTicks, List.forall_mem_cons]
    exact ⟨hnone, hnone, fun tick htick => absurd htick List.not_mem_nil⟩
  have hdid : (Agent.started ⟨⟨7⟩⟩ ⟨60, by decide⟩ ⟨10, by decide⟩ 0 minuteTicks).1 =
      [⟨some .kept, false, none⟩, ⟨none, false, some minuteReport⟩] := by
    simp [Agent.started, minuteTicks, Agent.MailClient.new, Agent.MailClient.run,
      Agent.MailClient.tick, Agent.MailBatch.gather, Agent.MailBatch.offer,
      Agent.MailBatch.noteAlerts, Agent.MailBatch.new, Agent.MailBatch.due, Agent.MailClient.due,
      Agent.MailClient.close, Agent.MailBatch.close, Agent.seconds, Agent.MailInterval.asDuration,
      pushBounded, Agent.maxSamples, minuteReport]
  have hkey : Hub.MailMasterKey.derive webHkdf onesMaster webAgent.text =
    webKey := by decide +kernel
  have hcipher : minuteCipher.encrypt webKey ninesNonce minuteSealing.msg webSealing.aad =
      some (minuteSealing.msg ++ List.replicate 16 0) := Aead.single_encrypt minuteSealing _
  have hseal : Agent.seal minuteCipher webAgent minuteSealing.msg
      (Hub.MailMasterKey.derive webHkdf onesMaster webAgent.text) ninesNonce =
        .ok (webSealing.aad ++ ninesNonce.toList ++
          (minuteSealing.msg ++ List.replicate 16 0)) := by
    rw [hkey]
    exact seal_eq_ok.mpr ⟨_, _, webSealed_eq.1, hcipher, rfl⟩
  obtain ⟨haccepted, -⟩ := mailed_reports_accepted webHkdf
    (Aead.roundTrips_single _ _) onesMaster packed_carries
    Uuid.ofHyphenated_hyphenated webAgent ⟨⟨7⟩⟩ ⟨60, by decide⟩ ⟨10, by decide⟩ htime hactive
    ⟨none, false, some minuteReport⟩ (hdid ▸ List.mem_cons_of_mem _ List.mem_cons_self)
    minuteReport rfl ninesNonce _ hseal
  obtain ⟨hdearmour, hopen, accepted, hdecode, hsame⟩ := haccepted (by decide +kernel)
  refine ⟨hdearmour, hopen, accepted, hdecode, ?_, ?_⟩
  · have hid : accepted.id = ⟨accepted.id.run, accepted.id.seq⟩ := rfl
    rw [hid, hsame.run, hsame.seq]
    rfl
  · exact hsame.snapshots.length_eq.symm

end MonitoringAgent.Wire
