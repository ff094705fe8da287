import MonitoringAgent.Model.Hub.Poll
import MonitoringAgent.Model.Uuid
import MonitoringAgent.Verification.Hub.Mail

/-! # Alert records of many systems

Polls and mail reports of any systems, registrations, acknowledgements and deletions, and the
records they leave. A record's key joins its system's id and its incident's. -/

namespace MonitoringAgent.Hub

open MonitoringAgent.Library

inductive AlertStep where
  | register (id : SystemId) (system : SystemInfo)
  /-- One active alert of a poll; `uuid` is drawn for an alert without an id. -/
  | poll (system : SystemId) (name : String) (alert : PolledAlert) (storedAt : ℕ) (uuid : Uuid)
  | mail (opened : Except MessageRefusal (SystemId × MailReport)) (now : ℕ) (instant : Instant)
    (faults : IngestFaults)
  | acknowledge (alertId : String)
  | delete (system : SystemId)

/-- One incident of a system, as reported, with the record of the report. -/
structure ReportedIncident where
  system : SystemId
  incident : String
  record : AlertRecord
  key : record.id = system ++ "_" ++ incident
  system_eq : record.systemId = system
  unacknowledged : record.acknowledged = false

namespace AlertStep

def app (app : AppState) : AlertStep → AppState
  | .register id system => { app with db := (app.db.insertSystemIfAbsent id system).2 }
  | .poll system name alert storedAt uuid =>
      app.storeAgentAlert (alertRecord system name alert storedAt uuid.hyphenated)
  | .mail opened now instant faults => (app.ingestMessage opened now instant faults).2
  | .acknowledge alertId => { app with db := app.db.acknowledgeAlert alertId }
  | .delete system => app.deleteSystem system

/-- The incidents a poll's alert or an opened mail report names. -/
def incidents : AlertStep → List ReportedIncident
  | .poll system name alert storedAt uuid =>
      match h : alert.id with
      | some incident =>
          [⟨system, incident, alertRecord system name alert storedAt uuid.hyphenated,
            by simp [alertRecord, h], rfl, rfl⟩]
      | none => []
  | .mail (.ok (system, report)) now _ _ =>
      match SnapshotTime.ofSecs now with
      | some now => report.alerts.map fun alert =>
          ⟨system, alert.id, ⟨system ++ "_" ++ alert.id, system, system, alert.severity,
            alert.message, alert.currentValue, alert.firedAt, now.seconds, false⟩, rfl, rfl, rfl⟩
      | none => []
  | _ => []

/-- Whether the hub takes the step's report: a poll's system is registered, and a mail report is
stored. -/
def accepted (app : AppState) : AlertStep → Bool
  | .poll system .. => app.db.systemExists system
  | .mail opened now instant faults =>
      match (app.ingestMessage opened now instant faults).1 with
      | .ok (.stored ..) => true
      | _ => false
  | _ => false

end AlertStep

/-- The hub, and the first report of each incident since its system was last deleted. -/
structure AlertHistory where
  app : AppState
  first : SystemId → String → Option AlertRecord

namespace AlertHistory

def new : AlertHistory := ⟨.new, fun _ _ => none⟩

/-- Remembers an incident's first report. -/
def note (first : SystemId → String → Option AlertRecord) (r : ReportedIncident) :
    SystemId → String → Option AlertRecord :=
  fun system incident =>
    if r.system = system ∧ r.incident = incident then some ((first system incident).getD r.record)
    else first system incident

def step (h : AlertHistory) (s : AlertStep) : AlertHistory where
  app := s.app h.app
  first := match s with
    | .delete system => fun t incident => if system = t then none else h.first t incident
    | s => if s.accepted h.app then s.incidents.foldl note h.first else h.first

def run (steps : List AlertStep) : AlertHistory := steps.foldl step new

/-- The record's key is not another system's, and its value can be stored if the incident has no
record yet. -/
def clear (alerts : Table String AlertRecord) (record : AlertRecord) : Bool :=
  (alerts.get? record.id).all (·.systemId = record.systemId) &&
    (!isNaN record.currentValue || alerts.contains record.id)

/-- Every record is clear when its turn comes. -/
def allClear (alerts : Table String AlertRecord) : List ReportedIncident → Bool
  | [] => true
  | r :: rs => clear alerts r.record && allClear (Database.keepAlert alerts r.record) rs

/-- No incident that the step reports has a key under which another system's record is held, nor a
NaN value before it has a record. -/
def stepClear (app : AppState) (s : AlertStep) : Bool :=
  !s.accepted app || allClear app.db.alerts s.incidents

/-- Every step is clear in the state it is taken from. -/
def runClear (h : AlertHistory) : List AlertStep → Bool
  | [] => true
  | s :: steps => stepClear h.app s && runClear (h.step s) steps

/-! ### One record -/

theorem join_inj {system i j : String} (h : system ++ "_" ++ i = system ++ "_" ++ j) : i = j := by
  have hchars := congrArg String.toList h
  simp only [String.toList_append, List.append_assoc, List.append_cancel_left_eq] at hchars
  exact String.toList_injective hchars

/-- A drawn id is no incident's key. -/
theorem hyphenated_ne_join (uuid : Uuid) (system i : String) :
    uuid.hyphenated ≠ system ++ "_" ++ i := by
  intro h
  have hmem : '_' ∈ uuid.hyphenated.toList := by
    rw [h, String.toList_append, String.toList_append]
    simp
  exact absurd (Uuid.mem_hyphenated hmem) (by decide)

/-- The table holds the first report of every incident, and no other record of an incident. -/
structure Recorded (alerts : Table String AlertRecord)
    (first : SystemId → String → Option AlertRecord) : Prop where
  id_eq : ∀ key held, alerts.get? key = some held → held.id = key
  system_eq : ∀ system i record, first system i = some record → record.systemId = system
  held : ∀ system i record, first system i = some record →
    ∃ held, alerts.get? (system ++ "_" ++ i) = some held ∧
      held = { record with acknowledged := held.acknowledged }
  reported : ∀ system i held, alerts.get? (system ++ "_" ++ i) = some held →
    held.systemId = system → (first system i).isSome = true

variable {alerts : Table String AlertRecord} {first : SystemId → String → Option AlertRecord}

theorem keepAlert_of_contains {record : AlertRecord} (h : alerts.contains record.id = true) :
    Database.keepAlert alerts record = alerts := by
  rw [Database.keepAlert]
  split_ifs <;> rfl

/-- A record that is kept changes no other. -/
theorem get?_keepAlert_of_some {record held : AlertRecord} {key : String}
    (h : alerts.get? key = some held) :
    (Database.keepAlert alerts record).get? key = some held := by
  rw [Database.keepAlert]
  split_ifs with hnan hknown
  · exact h
  · exact h
  · rw [Table.get?_insert_of_ne, h]
    rintro rfl
    exact hknown (by rw [Table.contains, h]; rfl)

theorem get?_keepAlert {record held : AlertRecord} {key : String}
    (h : (Database.keepAlert alerts record).get? key = some held) :
    alerts.get? key = some held ∨ key = record.id ∧ held = record := by
  rw [Database.keepAlert] at h
  split_ifs at h
  · exact .inl h
  · exact .inl h
  · rw [Table.get?_insert] at h
    split_ifs at h with heq
    · exact .inr ⟨heq.symm, (Option.some.inj h).symm⟩
    · exact .inl h

theorem note_self {r : ReportedIncident} :
    note first r r.system r.incident = some ((first r.system r.incident).getD r.record) :=
  if_pos ⟨rfl, rfl⟩

theorem note_of_isSome {r : ReportedIncident} (h : (first r.system r.incident).isSome = true) :
    note first r = first := by
  funext system i
  rw [note]
  split_ifs with heq
  · obtain ⟨rfl, rfl⟩ := heq
    obtain ⟨record, hrecord⟩ := Option.isSome_iff_exists.mp h
    rw [hrecord]
    rfl
  · rfl

theorem clear_iff {record : AlertRecord} : clear alerts record = true ↔
    (∀ held, alerts.get? record.id = some held → held.systemId = record.systemId) ∧
      (isNaN record.currentValue = true → alerts.contains record.id = true) := by
  rw [clear, Bool.and_eq_true, Option.all_eq_true, Bool.or_eq_true, Bool.not_eq_true',
    or_iff_not_imp_left, Bool.not_eq_false]
  simp

/-- A clear report of an incident leaves its record, and every other. -/
theorem Recorded.keepAlert (h : Recorded alerts first) {r : ReportedIncident}
    (hclear : clear alerts r.record = true) :
    Recorded (Database.keepAlert alerts r.record) (note first r) := by
  obtain ⟨hown, hvalue⟩ := clear_iff.mp hclear
  rcases Bool.eq_false_or_eq_true (alerts.contains r.record.id) with hknown | hnew
  · -- The record held under the key is this system's, so it is this incident's.
    obtain ⟨held, hheld⟩ := Table.contains_iff.mp hknown
    have hsystem : held.systemId = r.system := (hown held hheld).trans r.system_eq
    rw [r.key] at hheld
    rw [keepAlert_of_contains hknown, note_of_isSome (h.reported _ _ held hheld hsystem)]
    exact h
  · have hnone : first r.system r.incident = none := by
      cases hfirst : first r.system r.incident with
      | none => rfl
      | some record =>
          obtain ⟨held, hheld, -⟩ := h.held _ _ record hfirst
          rw [← r.key] at hheld
          rw [Table.contains, hheld] at hnew
          cases hnew
    have hkeep : Database.keepAlert alerts r.record = alerts.insert r.record.id r.record := by
      rw [Database.keepAlert, if_neg, if_neg]
      · rw [hnew]
        simp
      · intro hnan
        rw [hvalue hnan] at hnew
        cases hnew
    refine ⟨?_, ?_, ?_, ?_⟩
    · intro key held hheld
      rcases get?_keepAlert hheld with hheld | ⟨rfl, rfl⟩
      · exact h.id_eq key held hheld
      · rfl
    · intro system i record hrecord
      rw [note] at hrecord
      split_ifs at hrecord with heq
      · obtain ⟨rfl, rfl⟩ := heq
        rw [hnone] at hrecord
        obtain rfl := Option.some.inj hrecord
        exact r.system_eq
      · exact h.system_eq system i record hrecord
    · intro system i record hrecord
      rw [note] at hrecord
      split_ifs at hrecord with heq
      · obtain ⟨rfl, rfl⟩ := heq
        rw [hnone] at hrecord
        obtain rfl := Option.some.inj hrecord
        refine ⟨r.record, ?_, rfl⟩
        rw [hkeep, ← r.key, Table.get?_insert_self]
      · obtain ⟨held, hheld, hvalues⟩ := h.held system i record hrecord
        exact ⟨held, get?_keepAlert_of_some hheld, hvalues⟩
    · intro system i held hheld hsystem
      rcases get?_keepAlert hheld with hheld | ⟨hkey, rfl⟩
      · rw [note]
        split_ifs
        · rfl
        · exact h.reported system i held hheld hsystem
      · obtain rfl : r.system = system := r.system_eq.symm.trans hsystem
        obtain rfl : i = r.incident := join_inj (hkey.trans r.key)
        rw [note_self]
        rfl

theorem Recorded.foldl_keepAlert {rs : List ReportedIncident} (h : Recorded alerts first)
    (hclear : allClear alerts rs = true) :
    Recorded ((rs.map ReportedIncident.record).foldl Database.keepAlert alerts)
      (rs.foldl note first) := by
  induction rs generalizing alerts first with
  | nil => exact h
  | cons r rs ih =>
      rw [allClear, Bool.and_eq_true] at hclear
      exact ih (h.keepAlert hclear.1) hclear.2

/-- A record under a drawn id is no incident's. -/
theorem Recorded.keepDrawn (h : Recorded alerts first) {record : AlertRecord} {uuid : Uuid}
    (hid : record.id = uuid.hyphenated) : Recorded (Database.keepAlert alerts record) first := by
  refine ⟨?_, h.system_eq, ?_, ?_⟩
  · intro key held hheld
    rcases get?_keepAlert hheld with hheld | ⟨rfl, rfl⟩
    · exact h.id_eq key held hheld
    · rfl
  · intro system i record hrecord
    obtain ⟨held, hheld, hvalues⟩ := h.held system i record hrecord
    exact ⟨held, get?_keepAlert_of_some hheld, hvalues⟩
  · intro system i held hheld hsystem
    rcases get?_keepAlert hheld with hheld | ⟨hkey, -⟩
    · exact h.reported system i held hheld hsystem
    · exact absurd (hid.symm.trans hkey.symm) (hyphenated_ne_join uuid system i)

/-! ### One step -/

theorem storeAgentAlert_alerts (app : AppState) (record : AlertRecord) :
    (app.storeAgentAlert record).db.alerts =
      if app.db.systemExists record.systemId then Database.keepAlert app.db.alerts record
        else app.db.alerts := by
  rw [AppState.storeAgentAlert, Database.insertAlert, Database.keepAlert]
  split_ifs <;> rfl

/-- A polled alert with an id is one incident; without, it is recorded under a drawn id. -/
theorem incidents_poll (system : SystemId) (name : String) (alert : PolledAlert)
    (storedAt : ℕ) (uuid : Uuid) :
    (∃ r, AlertStep.incidents (.poll system name alert storedAt uuid) = [r] ∧
      r.record = alertRecord system name alert storedAt uuid.hyphenated) ∨
    (AlertStep.incidents (.poll system name alert storedAt uuid) = [] ∧
      (alertRecord system name alert storedAt uuid.hyphenated).id = uuid.hyphenated) := by
  obtain ⟨id, severity, message, currentValue, firedAt⟩ := alert
  cases id with
  | none => exact .inr ⟨rfl, rfl⟩
  | some incident => exact .inl ⟨_, rfl, rfl⟩

theorem records_mail (system : SystemId) (report : MailReport) {now : ℕ} {time : SnapshotTime}
    (htime : SnapshotTime.ofSecs now = some time) (instant : Instant) (faults : IngestFaults) :
    (AlertStep.incidents (.mail (.ok (system, report)) now instant faults)).map
      ReportedIncident.record =
      alertRecords system report time := by
  simp only [AlertStep.incidents, htime, List.map_map, alertRecords]
  rfl

theorem Recorded.acknowledgeAlert {db : Database} (h : Recorded db.alerts first)
    (alertId : String) : Recorded (db.acknowledgeAlert alertId).alerts first := by
  rw [Database.acknowledgeAlert]
  cases hknown : db.alerts.get? alertId with
  | none => exact h
  | some alert =>
      -- The one record that changes keeps its id, its system and its values.
      have hget : ∀ {key : String} {held : AlertRecord},
          (db.alerts.insert alertId { alert with acknowledged := true }).get? key = some held →
          ∃ before, db.alerts.get? key = some before ∧ held.id = before.id ∧
            held.systemId = before.systemId := by
        intro key held hheld
        rw [Table.get?_insert] at hheld
        split_ifs at hheld with heq
        · obtain rfl := Option.some.inj hheld
          exact ⟨alert, heq ▸ hknown, rfl, rfl⟩
        · exact ⟨held, hheld, rfl, rfl⟩
      refine ⟨?_, h.system_eq, ?_, ?_⟩
      · intro key held hheld
        obtain ⟨before, hbefore, hid, -⟩ := hget hheld
        exact hid.trans (h.id_eq key before hbefore)
      · intro system i record hrecord
        obtain ⟨held, hheld, hvalues⟩ := h.held system i record hrecord
        by_cases heq : alertId = system ++ "_" ++ i
        · obtain rfl : alert = held := Option.some.inj ((hknown.symm.trans (heq ▸ rfl)).trans hheld)
          refine ⟨{ alert with acknowledged := true }, ?_, ?_⟩
          · dsimp only
            rw [← heq, Table.get?_insert_self]
          · rw [hvalues]
        · exact ⟨held, (Table.get?_insert_of_ne _ _ heq).trans hheld, hvalues⟩
      · intro system i held hheld hsystem
        obtain ⟨before, hbefore, -, hsame⟩ := hget hheld
        exact h.reported system i before hbefore (hsame.symm.trans hsystem)

theorem Recorded.deleteSystem {db : Database} (h : Recorded db.alerts first) (id : SystemId) :
    Recorded (db.deleteSystem id).alerts fun system i => if id = system then none
      else first system i := by
  have hget : ∀ {key : String} {held : AlertRecord},
      (db.deleteSystem id).alerts.get? key = some held ↔ db.alerts.get? key = some held ∧
      held.systemId ≠ id := by
    intro key held
    rw [Database.deleteSystem, Table.get?_filter, Option.filter_eq_some_iff]
    simp
  refine ⟨?_, ?_, ?_, ?_⟩
  · intro key held hheld
    exact h.id_eq key held (hget.mp hheld).1
  · intro system i record hrecord
    split_ifs at hrecord with heq
    exact h.system_eq system i record hrecord
  · intro system i record hrecord
    split_ifs at hrecord with heq
    obtain ⟨held, hheld, hvalues⟩ := h.held system i record hrecord
    refine ⟨held, hget.mpr ⟨hheld, ?_⟩, hvalues⟩
    rw [hvalues]
    exact fun hid => heq (hid.symm.trans (h.system_eq system i record hrecord))
  · intro system i held hheld hsystem
    obtain ⟨hheld, hne⟩ := hget.mp hheld
    rw [if_neg fun heq => hne (hsystem.trans heq.symm)]
    exact h.reported system i held hheld hsystem

theorem allClear_of_accepted {app : AppState} {s : AlertStep} (hclear : stepClear app s = true)
    (haccepted : s.accepted app = true) : allClear app.db.alerts s.incidents = true := by
  rw [stepClear, haccepted] at hclear
  simpa using hclear

/-- A clear step keeps the first report of every incident. -/
theorem Recorded.step {h : AlertHistory} (hrec : Recorded h.app.db.alerts h.first) {s : AlertStep}
    (hclear : stepClear h.app s = true) : Recorded (h.step s).app.db.alerts (h.step s).first := by
  cases s with
  | register id system =>
      have halerts : (h.app.db.insertSystemIfAbsent id system).2.alerts = h.app.db.alerts := by
        rw [Database.insertSystemIfAbsent]
        split <;> rfl
      change Recorded (h.app.db.insertSystemIfAbsent id system).2.alerts h.first
      rwa [halerts]
  | poll system name alert storedAt uuid =>
      change Recorded (h.app.storeAgentAlert _).db.alerts
        (if h.app.db.systemExists system then (AlertStep.incidents _).foldl note h.first
          else h.first)
      rw [storeAgentAlert_alerts]
      change Recorded (if h.app.db.systemExists system then _ else _) _
      split_ifs with hexists
      · rcases incidents_poll system name alert storedAt uuid with ⟨r, hr, hrecord⟩ | ⟨hnone, hid⟩
        · have hone := allClear_of_accepted hclear hexists
          rw [hr] at hone
          rw [hr, ← hrecord]
          exact hrec.keepAlert (Bool.and_eq_true_iff.mp hone).1
        · rw [hnone]
          exact hrec.keepDrawn hid
      · exact hrec
  | mail opened now instant faults =>
      change Recorded (h.app.ingestMessage opened now instant faults).2.db.alerts _
      rcases h.app.ingestMessage_cases opened now instant faults with
        ⟨system, report, time, recency, expired, app', rfl, htime, hstored, htakes⟩ | ⟨hnot, hsame⟩
      · have haccepted : AlertStep.accepted h.app
            (.mail (.ok (system, report)) now instant faults) = true := by
          rw [AlertStep.accepted, hstored]
        change Recorded _ (if AlertStep.accepted h.app _ then _ else _)
        rw [if_pos haccepted, hstored, htakes.alerts,
          ← records_mail system report htime instant faults]
        exact hrec.foldl_keepAlert (allClear_of_accepted hclear haccepted)
      · have haccepted : ¬ AlertStep.accepted h.app (.mail opened now instant faults) = true := by
          rw [AlertStep.accepted]
          split
          · next hstored => exact absurd hstored (hnot _ _)
          · simp
        change Recorded _ (if AlertStep.accepted h.app _ then _ else _)
        rw [if_neg haccepted, hsame]
        exact hrec
  | acknowledge alertId => exact hrec.acknowledgeAlert alertId
  | delete system => exact hrec.deleteSystem system

theorem recorded_new : Recorded new.app.db.alerts new.first where
  id_eq key held h := by cases h
  system_eq system i record h := by cases h
  held system i record h := by cases h
  reported system i held h := by cases h

theorem Recorded.foldl_step {steps : List AlertStep} {h : AlertHistory}
    (hrec : Recorded h.app.db.alerts h.first) (hclear : runClear h steps = true) :
    Recorded (steps.foldl AlertHistory.step h).app.db.alerts
      (steps.foldl AlertHistory.step h).first := by
  induction steps generalizing h with
  | nil => exact hrec
  | cons s steps ih =>
      rw [runClear, Bool.and_eq_true] at hclear
      exact ih (hrec.step hclear.1) hclear.2

/-! ### Records of other systems -/

/-- The system whose report a step is. -/
def reporter : AlertStep → Option SystemId
  | .poll system .. => some system
  | .mail (.ok (system, _)) .. => some system
  | _ => none

theorem keepAlert_others {record : AlertRecord} {key : String} {held : AlertRecord}
    (hne : held.systemId ≠ record.systemId) :
    (Database.keepAlert alerts record).get? key = some held ↔ alerts.get? key = some held := by
  refine ⟨fun h => ?_, get?_keepAlert_of_some⟩
  rcases get?_keepAlert h with h | ⟨-, rfl⟩
  · exact h
  · exact absurd rfl hne

theorem foldl_keepAlert_others {records : List AlertRecord} {system : SystemId} {key : String}
    {held : AlertRecord} (hsystem : ∀ record ∈ records, record.systemId = system)
    (hne : held.systemId ≠ system) :
    (records.foldl Database.keepAlert alerts).get? key = some held ↔
    alerts.get? key = some held := by
  induction records generalizing alerts with
  | nil => rfl
  | cons record records ih =>
      have hrecord : held.systemId ≠ record.systemId := by rwa [hsystem record List.mem_cons_self]
      rw [List.foldl_cons, ih fun r hr => hsystem r (List.mem_cons_of_mem record hr),
        keepAlert_others hrecord]

/-- A report of one system creates and changes no record of another. -/
theorem step_others {h : AlertHistory} {s : AlertStep} {system : SystemId}
    (hreporter : reporter s = some system) {key : String} {held : AlertRecord}
    (hne : held.systemId ≠ system) :
    (h.step s).app.db.alerts.get? key = some held ↔ h.app.db.alerts.get? key = some held := by
  cases s with
  | register id row => cases hreporter
  | acknowledge alertId => cases hreporter
  | delete id => cases hreporter
  | poll id name alert storedAt uuid =>
      obtain rfl := Option.some.inj hreporter
      change (h.app.storeAgentAlert _).db.alerts.get? key = some held ↔ _
      rw [storeAgentAlert_alerts]
      split_ifs
      · exact keepAlert_others hne
      · rfl
  | mail opened now instant faults =>
      change (h.app.ingestMessage opened now instant faults).2.db.alerts.get? key = some held ↔ _
      rcases h.app.ingestMessage_cases opened now instant faults with
        ⟨id, report, time, recency, expired, app', rfl, htime, hstored, htakes⟩ | ⟨-, hsame⟩
      · obtain rfl := Option.some.inj hreporter
        rw [hstored, htakes.alerts]
        have hsystem : ∀ record ∈ alertRecords id report time, record.systemId = id := by
          intro record hrecord
          obtain ⟨alert, -, rfl⟩ := List.mem_map.mp hrecord
          rfl
        exact foldl_keepAlert_others hsystem hne
      · rw [hsame]

/-- When every step is clear, the table holds exactly one record for every incident of a system
reported and not deleted since: the system's, with the values of the incident's first report. A
report of one system creates and changes no record of another. -/
theorem alert_records_isolated {steps : List AlertStep} (hclear : runClear new steps = true) :
    (∀ system i record, (run steps).first system i = some record →
      ∃ held, held = { record with acknowledged := held.acknowledged } ∧ held.systemId = system ∧
        ∀ key other, ((run steps).app.db.alerts.get? key = some other ∧ other.systemId = system ∧
          other.id = system ++ "_" ++ i) ↔ key = system ++ "_" ++ i ∧ other = held) ∧
    (∀ earlier s later system, steps = earlier ++ s :: later → reporter s = some system →
      ∀ key held, held.systemId ≠ system →
        ((run (earlier ++ [s])).app.db.alerts.get? key = some held ↔
          (run earlier).app.db.alerts.get? key = some held)) := by
  constructor
  · intro system i record hfirst
    have hrec : Recorded (run steps).app.db.alerts (run steps).first :=
      recorded_new.foldl_step hclear
    obtain ⟨held, hheld, hvalues⟩ := hrec.held system i record hfirst
    have hsystem : held.systemId = system := by
      rw [hvalues]
      exact hrec.system_eq system i record hfirst
    refine ⟨held, hvalues, hsystem, ?_⟩
    intro key other
    constructor
    · rintro ⟨hother, -, hid⟩
      obtain rfl : key = system ++ "_" ++ i := (hrec.id_eq key other hother).symm.trans hid
      exact ⟨rfl, Option.some.inj (hother.symm.trans hheld)⟩
    · rintro ⟨rfl, rfl⟩
      exact ⟨hheld, hsystem, hrec.id_eq _ _ hheld⟩
  · intro earlier s later system _ hreporter key held hne
    rw [run, List.foldl_append]
    exact step_others hreporter hne

/-- A polled alert with an incident id and a value. -/
def polledIncident (incident : String) : PolledAlert :=
  ⟨some incident, none, some "busy", some 0x42480000#32, none⟩

/-- Two systems registered, and one alert polled of each. -/
def polledPair (system incident system' incident' : String) : List AlertStep :=
  [.register system (.registered system "http://a"),
    .register system' (.registered system' "http://b"), .poll system system
      (polledIncident incident) 10 ⟨0⟩, .poll system' system' (polledIncident incident') 20 ⟨1⟩]

theorem alert_records_isolated_pair :
    ∃ held, held.storedAt = 20 ∧ held.systemId = "web-02" ∧
      (run (polledPair "web-01" "cpu-1" "web-02" "cpu-1")).app.db.alerts.get? "web-02_cpu-1" =
        some held := by
  have hclear : runClear new (polledPair "web-01" "cpu-1" "web-02" "cpu-1") =
    true := by decide +kernel
  have hisolated := (alert_records_isolated hclear).1 "web-02" "cpu-1"
    (alertRecord "web-02" "web-02" (polledIncident "cpu-1") 20 (Uuid.hyphenated ⟨1⟩))
    (by decide +kernel)
  obtain ⟨held, hvalues, hsystem, hheld⟩ := hisolated
  refine ⟨held, by rw [hvalues]; rfl, hsystem, ?_⟩
  exact ((hheld "web-02_cpu-1" held).mpr ⟨by decide +kernel, rfl⟩).1

/-- The incident `cpu` of `web_01` was reported, and its only record would have the key of the
incident `01_cpu` of `web`, which was recorded first. -/
theorem alert_record_prevented :
    (run (polledPair "web" "01_cpu" "web_01" "cpu")).first "web_01" "cpu" ≠ none ∧
      (run (polledPair "web" "01_cpu" "web_01" "cpu")).app.db.systemExists "web_01" = true ∧
      ∀ e ∈ (run (polledPair "web" "01_cpu" "web_01" "cpu")).app.db.alerts.entries,
        e.2.systemId ≠ "web_01" := by
  refine ⟨by decide +kernel, by decide +kernel, by decide +kernel⟩

end AlertHistory

end MonitoringAgent.Hub
