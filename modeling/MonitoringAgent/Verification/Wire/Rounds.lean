import MonitoringAgent.Library.Except
import MonitoringAgent.Library.Packed
import MonitoringAgent.Verification.Wire.Shapes

/-! # A scrape round means the same on every transport

The agent writes a round by position into a frame, by name into a poll response and by name into a
mail report; the hub converts each with its own rules. -/

namespace MonitoringAgent.Wire

open MonitoringAgent.Library

/-! ### The configuration -/

section Config

variable {crate : Agent.UrlCrate} {lookup : Agent.Lookup}

theorem parseTargets_spec {pairs keys : List String} {position : ℕ}
    {targets : List (Agent.ApplicationTarget crate)}
    (h : Agent.parseTargets crate lookup keys position pairs = .ok targets) :
    targets.length = pairs.length ∧ (targets.map fun t => t.name.credentialsKey).Nodup ∧
      ∀ t ∈ targets, t.name.credentialsKey ∉ keys := by
  induction pairs generalizing keys position targets with
  | nil =>
      cases h
      exact ⟨rfl, by simp, by simp⟩
  | cons pair pairs ih =>
      rw [Agent.parseTargets] at h
      obtain ⟨target, -, h⟩ := except_bind_eq_ok.mp h
      dsimp only at h
      split_ifs at h with hkey
      · obtain ⟨_, hthrow, -⟩ := except_bind_eq_ok.mp h
        cases hthrow
      · obtain ⟨rest, hrest, h⟩ := except_bind_eq_ok.mp h
        cases h
        obtain ⟨hlength, hnodup, hkeys⟩ := ih hrest
        refine ⟨by simp [hlength], ?_, ?_⟩
        · rw [List.map_cons, List.nodup_cons]
          refine ⟨fun hmem => ?_, hnodup⟩
          obtain ⟨other, hother, hsame⟩ := List.mem_map.mp hmem
          exact hkeys other hother (hsame ▸ List.mem_cons_self)
        · intro t ht
          rcases List.mem_cons.mp ht with rfl | ht
          · exact hkey
          · exact fun hmem => hkeys t ht (List.mem_cons_of_mem _ hmem)

/-- The targets of an accepted configuration are few, and their names are distinct: two that are
equal would have one credential key. -/
theorem parse_spec {apps : Agent.Applications crate}
    (h : Agent.ApplicationsConfig.parse crate lookup = .ok (.on apps)) :
    apps.targets.length ≤ 16 ∧ (apps.targets.map Agent.ApplicationTarget.name).Nodup := by
  rw [Agent.ApplicationsConfig.parse] at h
  obtain ⟨value, -, h⟩ := except_bind_eq_ok.mp h
  cases value with
  | none => cases h
  | some text =>
      dsimp only at h
      split_ifs at h with hmany
      · obtain ⟨_, hthrow, -⟩ := except_bind_eq_ok.mp h
        cases hthrow
      · obtain ⟨targets, htargets, h⟩ := except_bind_eq_ok.mp h
        obtain ⟨secs, -, h⟩ := except_bind_eq_ok.mp h
        obtain ⟨interval, -, h⟩ := except_bind_eq_ok.mp h
        cases h
        obtain ⟨hlength, hnodup, -⟩ := parseTargets_spec htargets
        refine ⟨?_, ?_⟩
        · rw [hlength]
          exact not_lt.mp hmany
        · have hkeys : targets.map (fun t => t.name.credentialsKey) =
              (targets.map Agent.ApplicationTarget.name).map
                Agent.ApplicationName.credentialsKey := by
            rw [List.map_map]
            rfl
          rw [hkeys] at hnodup
          exact hnodup.of_map _

/-- The loop scrapes the configured applications, in their order, round after round. -/
theorem watchedAfter_targets (ops : Agent.F64Ops Agent.F64) (apps : Agent.Applications crate)
    (scrapes : List (Agent.ApplicationTarget crate → Agent.RawScrape Agent.F64 × ℕ)) :
    (Agent.watchedAfter ops apps scrapes).map Agent.WatchedApplication.target = apps.targets := by
  induction scrapes using List.reverseRecOn with
  | nil => simp [Agent.watchedAfter, Agent.WatchedApplication.new, Function.comp_def]
  | append_singleton scrapes scraper ih =>
      rw [Agent.watchedAfter, List.foldl_append, List.foldl_cons, List.foldl_nil,
        ← Agent.watchedAfter, Agent.scrapeRound, List.map_map, List.map_map]
      exact ih

theorem scrapeRound_names (ops : Agent.F64Ops Agent.F64)
    (scraper : Agent.ApplicationTarget crate → Agent.RawScrape Agent.F64 × ℕ)
    (watched : List (Agent.WatchedApplication crate Agent.F64)) :
    (Agent.scrapeRound ops scraper watched).2.map Agent.NamedReport.name =
      (watched.map Agent.WatchedApplication.target).map Agent.ApplicationTarget.name := by
  rw [Agent.scrapeRound, List.map_map, List.map_map, List.map_map]
  rfl

end Config

/-! ### Gauges -/

theorem lookup_eq_some {α β : Type} [DecidableEq α] {l : List (α × β)} {key : α}
    (h : ∀ v v', (key, v) ∈ l → (key, v') ∈ l → v = v') {value : β} :
    l.lookup key = some value ↔ (key, value) ∈ l := by
  constructor
  · intro hlookup
    obtain ⟨before, after, rfl, -⟩ := List.lookup_eq_some_iff.mp hlookup
    exact List.mem_append_right _ List.mem_cons_self
  · intro hmem
    cases hlookup : l.lookup key with
    | none =>
        have hne := List.lookup_eq_none_iff.mp hlookup (key, value) hmem
        simp at hne
    | some other =>
        obtain ⟨before, after, rfl, -⟩ := List.lookup_eq_some_iff.mp hlookup
        rw [h value other hmem (List.mem_append_right _ List.mem_cons_self)]

theorem fromWire_eq_some {name : String} {gauge : Hub.Applications.ApplicationGauge} :
    Hub.Applications.ApplicationGauge.fromWire name = some gauge ↔ name = gauge.wireName := by
  constructor
  · intro h
    have hfound := List.find?_some h
    exact (of_decide_eq_true hfound).symm
  · rintro rfl
    cases gauge <;> rfl

/-- The hub keeps the finite values of the gauges it knows. -/
theorem get_fromWire (t : Table String Hub.Applications.F64)
    (gauge : Hub.Applications.ApplicationGauge) :
    (Hub.Applications.Gauges.fromWire t.entries).get gauge =
      (t.get? gauge.wireName).filter Hub.Applications.F64.isFinite := by
  apply Option.ext
  intro value
  have hmem : ∀ value, (gauge, value) ∈ ((t.entries.filter fun e => e.2.isFinite).filterMap fun e =>
      (Hub.Applications.ApplicationGauge.fromWire e.1).map (·, e.2)).reverse ↔
        t.get? gauge.wireName = some value ∧ value.isFinite = true := by
    intro value
    simp only [List.mem_reverse, List.mem_filterMap, List.mem_filter, Option.map_eq_some_iff,
      fromWire_eq_some, Prod.mk.injEq, Prod.exists, Table.get?_eq_some_iff]
    constructor
    · rintro ⟨name, v, ⟨hentry, hfinite⟩, g, rfl, rfl, rfl⟩
      exact ⟨hentry, hfinite⟩
    · rintro ⟨hentry, hfinite⟩
      exact ⟨gauge.wireName, value, ⟨hentry, hfinite⟩, gauge, rfl, rfl, rfl⟩
  refine (lookup_eq_some fun v v' hv hv' => ?_).trans
    ((hmem value).trans Option.filter_eq_some_iff.symm)
  exact Option.some.inj (((hmem v).mp hv).1.symm.trans ((hmem v').mp hv').1)

/-- The hub's word for an agent's gauge. -/
def gaugeOf : Agent.ApplicationGauge → Hub.Applications.ApplicationGauge
  | .heapUsedBytes => .heapUsedBytes
  | .heapMaxBytes => .heapMaxBytes
  | .cpuPercent => .cpuPercent
  | .liveThreads => .liveThreads
  | .gcPausePercent => .gcPausePercent
  | .httpRequestsPerSecond => .httpRequestsPerSecond
  | .httpServerErrorsPerSecond => .httpServerErrorsPerSecond
  | .httpMeanLatencyMs => .httpMeanLatencyMs
  | .dbConnectionsActive => .dbConnectionsActive
  | .uptimeSeconds => .uptimeSeconds

theorem wireName_gaugeOf (gauge : Agent.ApplicationGauge) :
    (gaugeOf gauge).wireName = gauge.wireName := by
  cases gauge <;> rfl

theorem wireName_injective : Function.Injective Agent.ApplicationGauge.wireName := by
  intro a b h
  rw [← wireName_gaugeOf, ← wireName_gaugeOf] at h
  have hgauge := fromWire_eq_some.mpr h
  rw [fromWire_eq_some.mpr rfl] at hgauge
  revert hgauge
  cases a <;> cases b <;> decide

theorem mem_iter {gauges : Agent.Gauges Agent.F64} {gauge : Agent.ApplicationGauge}
    {value : Agent.F64} : (gauge, value) ∈ gauges.iter ↔ gauges.get gauge = some value := by
  have hall : gauge ∈ Agent.ApplicationGauge.all := by cases gauge <;> decide
  simp only [Agent.Gauges.iter, List.mem_filterMap, Option.map_eq_some_iff, Prod.mk.injEq]
  constructor
  · rintro ⟨g, -, v, hv, rfl, rfl⟩
    exact hv
  · intro hv
    exact ⟨gauge, hall, value, hv, rfl, rfl⟩

/-- The agent's table of gauges, as it is written. -/
def gaugesTable (gauges : Agent.Gauges Agent.F64) : Table String Agent.F64 :=
  gauges.iter.foldl (fun t (gauge, value) => t.insert gauge.wireName value) .empty

/-- The table holds each gauge under its wire name. -/
theorem get?_gaugesTable {gauges : Agent.Gauges Agent.F64} {name : String} {value : Agent.F64} :
    (gaugesTable gauges).get? name = some value ↔
      ∃ gauge, gauge.wireName = name ∧ gauges.get gauge = some value := by
  have hmem : ∀ value, (name, value) ∈ gauges.iter.map (fun e => (e.1.wireName, e.2)) ↔
      ∃ gauge, gauge.wireName = name ∧ gauges.get gauge = some value := by
    intro value
    rw [List.mem_map]
    constructor
    · rintro ⟨⟨gauge, v⟩, hiter, heq⟩
      obtain ⟨hname, rfl⟩ := Prod.mk.inj heq
      exact ⟨gauge, hname, mem_iter.mp hiter⟩
    · rintro ⟨gauge, rfl, hget⟩
      exact ⟨(gauge, value), mem_iter.mpr hget, rfl⟩
  have hunique : ∀ v v', (name, v) ∈ gauges.iter.map (fun e => (e.1.wireName, e.2)) →
      (name, v') ∈ gauges.iter.map (fun e => (e.1.wireName, e.2)) → v = v' := by
    intro v v' hv hv'
    obtain ⟨gauge, rfl, hget⟩ := (hmem v).mp hv
    obtain ⟨other, hname, hother⟩ := (hmem v').mp hv'
    rw [wireName_injective hname, hget] at hother
    exact Option.some.inj hother
  have hfold := Table.get?_foldl_insert hunique .empty value
  rw [List.foldl_map, hmem, Table.get?_empty] at hfold
  rw [gaugesTable, hfold]
  simp

theorem finite_gaugesTable (gauges : Agent.Gauges Agent.F64) :
    ∀ e ∈ (gaugesTable gauges).entries, Agent.isFinite e.2 = true := by
  rintro ⟨name, value⟩ he
  rw [← Table.get?_eq_some_iff] at he
  obtain ⟨gauge, -, hget⟩ := get?_gaugesTable.mp he
  exact gauges.finite gauge value hget

/-- A finite gauge crosses the wire as it is, and nothing else does. -/
theorem get_fromWire_gaugesTable (gauges : Agent.Gauges Agent.F64)
    (gauge : Agent.ApplicationGauge) :
    (Hub.Applications.Gauges.fromWire (gaugesTable gauges).entries).get
      (gaugeOf gauge) = gauges.get gauge := by
  apply Option.ext
  intro value
  rw [get_fromWire, wireName_gaugeOf, Option.filter_eq_some_iff, get?_gaugesTable]
  constructor
  · rintro ⟨⟨other, hname, hget⟩, -⟩
    rwa [← wireName_injective hname]
  · intro hget
    exact ⟨⟨gauge, rfl, hget⟩, gauges.finite gauge value hget⟩

/-! ### Reports -/

/-- What the hub is to make of an agent's health: every failed scrape is `unreachable`. -/
def healthOf : Agent.ApplicationHealth → Hub.Applications.ApplicationHealth
  | .reported .up => .up
  | .reported .down => .down
  | .reported .outOfService => .outOfService
  | .reported .unknown => .unknown
  | .unreachable _ => .unreachable

def versionOf : Agent.ApplicationReport Agent.F64 → Option String
  | .unreachable _ => none
  | .reached _ version _ => version.map Agent.ApplicationVersion.text

/-- The gauges of a report by their wire names, in order. -/
def gaugesOf : Agent.ApplicationReport Agent.F64 → List (String × Agent.F64)
  | .unreachable _ => []
  | .reached _ _ gauges => gauges.iter.map fun e => (e.1.wireName, e.2)

/-- The hub's report says what the agent's does. -/
structure SameReport (named : Agent.NamedReport Agent.F64)
    (app : Hub.Applications.ApplicationReport) : Prop where
  name : app.name.text = named.name.text
  health : app.health = healthOf named.report.health
  version : app.version.map Hub.Applications.ApplicationVersion.text = versionOf named.report
  gauges : app.gauges.entries.map (fun e => (e.1.wireName, e.2)) = gaugesOf named.report

theorem fromWire_healthWireName (health : Agent.ApplicationHealth) :
    Hub.Applications.ApplicationHealth.fromWire (Agent.healthWireName health) =
      healthOf health := by
  cases health with
  | reported health => cases health <;> rfl
  | unreachable failure => rfl

/-- The hub's name rule is the agent's. -/
def nameOf (name : Agent.ApplicationName) : Hub.Applications.ApplicationName :=
  ⟨name.text, name.length, name.allowed, name.noDots⟩

theorem parse_name (name : Agent.ApplicationName) :
    Hub.Applications.ApplicationName.parse name.text = some (nameOf name) :=
  dif_pos ⟨name.length, name.allowed, name.noDots⟩

theorem nameOf_injective : Function.Injective nameOf := by
  rintro ⟨a, _, _, _⟩ ⟨b, _, _, _⟩ h
  obtain rfl : a = b := congrArg Hub.Applications.ApplicationName.text h
  rfl

/-- The hub's cut leaves a version the agent cut as it is. -/
theorem parse_version (version : Agent.ApplicationVersion) :
    Hub.Applications.ApplicationVersion.parse version.text =
      some ⟨version.text, version.short, version.notBlank⟩ := by
  have hcut : version.text.toList.take 64 = version.text.toList :=
    List.take_of_length_le version.short
  have hblank : (version.text.toList.take 64).all isWhitespace = false := by
    rw [hcut]
    exact version.notBlank
  rw [Hub.Applications.ApplicationVersion.parse, dif_pos hblank]
  simp only [hcut, String.ofList_toList]

theorem entries_eq {hub : Hub.Applications.Gauges} {gauges : Agent.Gauges Agent.F64}
    (h : ∀ gauge, hub.get (gaugeOf gauge) = gauges.get gauge) :
    hub.entries.map (fun e => (e.1.wireName, e.2)) = gauges.iter.map fun e =>
      (e.1.wireName, e.2) := by
  have hall : Hub.Applications.ApplicationGauge.all = Agent.ApplicationGauge.all.map gaugeOf := rfl
  rw [Hub.Applications.Gauges.entries, hall, List.filterMap_map, List.map_filterMap,
    Agent.Gauges.iter, List.map_filterMap]
  congr 1
  funext gauge
  rw [Function.comp_apply, h]
  cases gauges.get gauge with
  | none => rfl
  | some value => simp [wireName_gaugeOf]

/-- The hub's report for an agent's. -/
def reportOf (named : Agent.NamedReport Agent.F64) : Hub.Applications.ApplicationReport where
  name := nameOf named.name
  health := .fromWire (Agent.ApplicationReportDto.from named).health
  version := (Agent.ApplicationReportDto.from named).version.bind
    Hub.Applications.ApplicationVersion.parse
  gauges := .fromWire (Agent.ApplicationReportDto.from named).gauges.entries

theorem tryFrom_report (named : Agent.NamedReport Agent.F64) :
    Hub.Applications.ApplicationReport.tryFrom (reportDto (.from named)) =
      .ok (reportOf named) := by
  have hname : Hub.Applications.ApplicationName.parse (reportDto (.from named)).name =
      some (nameOf named.name) := parse_name named.name
  rw [Hub.Applications.ApplicationReport.tryFrom, hname]
  rfl

theorem sameReport_reportOf (named : Agent.NamedReport Agent.F64) :
    SameReport named (reportOf named) := by
  obtain ⟨name, report⟩ := named
  refine ⟨rfl, fromWire_healthWireName report.health, ?_, ?_⟩
  · cases report with
    | unreachable failure => rfl
    | reached health version gauges =>
        cases version with
        | none => rfl
        | some version =>
            simp [reportOf, Agent.ApplicationReportDto.from, versionOf, parse_version]
  · cases report with
    | unreachable failure => rfl
    | reached health version gauges => exact entries_eq (get_fromWire_gaugesTable gauges)

theorem names_of_same {reports : List (Agent.NamedReport Agent.F64)}
    {apps : List Hub.Applications.ApplicationReport} (h : List.Forall₂ SameReport reports apps) :
    apps.map (fun app => app.name.text) =
      (reports.map Agent.NamedReport.name).map Agent.ApplicationName.text := by
  induction h with
  | nil => rfl
  | cons hsame _ ih => rw [List.map_cons, List.map_cons, List.map_cons, hsame.name, ih]

/-- What the hub's reports say, in order. -/
theorem said_of_same {reports : List (Agent.NamedReport Agent.F64)}
    {apps : List Hub.Applications.ApplicationReport} (h : List.Forall₂ SameReport reports apps) :
    apps.map (fun app => (app.name.text, app.health,
        app.version.map Hub.Applications.ApplicationVersion.text,
        app.gauges.entries.map fun e => (e.1.wireName, e.2))) =
      reports.map fun named =>
        (named.name.text, healthOf named.report.health, versionOf named.report,
            gaugesOf named.report) := by
  induction h with
  | nil => rfl
  | cons hsame _ ih =>
      rw [List.map_cons, List.map_cons, ih, hsame.name, hsame.health, hsame.version, hsame.gauges]

/-! ### Rounds -/

section Conversion

variable (tryParse : String → Option Uuid)

/-- A round the agent built from an accepted configuration, as the hub keeps it. -/
theorem buildRound_ok (htryParse : ∀ u : Uuid, tryParse u.hyphenated = some u)
    {round : Agent.ScrapeRound Agent.F64} (hfew : round.applications.length ≤ 16)
    (hdistinct : (round.applications.map Agent.NamedReport.name).Nodup) :
    ∃ r : Hub.Applications.ScrapeRound,
      Hub.Applications.buildRound tryParse round.id.run.uuid.hyphenated
        round.id.seq.toNat round.interval.secs
        ((round.applications.map Agent.ApplicationReportDto.from).map reportDto) = .ok r ∧
      r.id = ⟨round.id.run.uuid, round.id.seq.toNat⟩ ∧
      r.content.interval.secs = round.interval.secs ∧
      List.Forall₂ SameReport round.applications r.content.applications := by
  have hreports : ((round.applications.map Agent.ApplicationReportDto.from).map reportDto).mapM
      Hub.Applications.ApplicationReport.tryFrom = .ok (round.applications.map reportOf) := by
    rw [List.map_map, List.mapM_map]
    exact except_mapM_ok fun named _ => tryFrom_report named
  have hnames :
      ((round.applications.map reportOf).map Hub.Applications.ApplicationReport.name).Nodup := by
    have hmap := hdistinct.map nameOf_injective
    rw [List.map_map] at hmap ⊢
    exact hmap
  have hlength : (round.applications.map reportOf).length ≤ Hub.Applications.maxApplications := by
    rw [List.length_map]
    exact hfew
  refine ⟨⟨⟨round.id.run.uuid, round.id.seq.toNat⟩, ⟨⟨round.interval.secs, round.interval.inRange⟩,
    round.applications.map reportOf⟩, hlength, hnames⟩, ?_, rfl, rfl, ?_⟩
  · rw [Hub.Applications.buildRound, Hub.Applications.RoundId.parse, htryParse, hreports,
      Hub.Applications.ScrapeInterval.fromSecs, dif_pos round.interval.inRange]
    simp only [Option.elim_some, except_ok_bind]
    exact (dif_pos hlength).trans (dif_pos hnames)
  · rw [List.forall₂_map_right_iff, List.forall₂_same]
    exact fun named _ => sameReport_reportOf named

variable {tryParse} {round : Agent.ScrapeRound Agent.F64} {r : Hub.Applications.ScrapeRound}
  (h : Hub.Applications.buildRound tryParse round.id.run.uuid.hyphenated
    round.id.seq.toNat round.interval.secs
    ((round.applications.map Agent.ApplicationReportDto.from).map reportDto) = .ok r)

include h

theorem tryFrom_frame : Hub.Applications.ScrapeRound.tryFrom tryParse
    (frameDto (.from round)) = .ok r := by
  have hkind : ¬ (frameDto (.from round)).kind ≠ "applications.v1" := not_not.mpr rfl
  rw [Hub.Applications.ScrapeRound.tryFrom, if_neg hkind]
  change (Hub.Applications.buildRound tryParse round.id.run.uuid.hyphenated
    round.id.seq.toNat round.interval.secs
    ((round.applications.map Agent.ApplicationReportDto.from).map reportDto)).mapError _ = _
  rw [h]
  rfl

theorem tryFrom_response :
    Hub.Applications.PolledRound.tryFrom tryParse (responseDto (.from (some round))) =
      .ok (.round r) := by
  change (Hub.Applications.buildRound tryParse round.id.run.uuid.hyphenated
    round.id.seq.toNat round.interval.secs
    ((round.applications.map Agent.ApplicationReportDto.from).map reportDto) >>= fun round =>
      pure (Hub.Applications.PolledRound.round round)) = _
  rw [h]
  rfl

end Conversion

theorem finite_gauges (named : Agent.NamedReport Agent.F64) :
    ∀ e ∈ (Agent.ApplicationReportDto.from named).gauges.entries, Agent.isFinite e.2 = true := by
  obtain ⟨name, report⟩ := named
  cases report with
  | unreachable failure => exact fun e he => absurd he List.not_mem_nil
  | reached health version gauges => exact finite_gaugesTable gauges

section Transports

/-- A frame arrives as it was sent. -/
theorem decode_frame {msgpack : Format} (hmsgpack : msgpack.Carries Scalar.Sized)
    (round : Agent.ScrapeRound Agent.F64) :
    Hub.Applications.decode msgpack (Agent.ApplicationFrame.encode msgpack round) =
      some (frameDto (.from round)) := by
  rw [Hub.Applications.decode, Agent.ApplicationFrame.encode, hmsgpack,
    Option.bind_some, read_frameDto]
  exact all_frameDto Scalar.plain_sized .positional (interval_lt round) fun _ _ _ _ => trivial

/-- What a poll response needs of JSON, which writes no integer over 64 bits here and no float that
isn't finite. -/
structure Served (response : Agent.ApplicationsResponse) : Prop where
  interval : ∀ secs, response.intervalSecs = some secs → secs < 2 ^ 64
  gauges : ∀ dto ∈ response.applications, ∀ e ∈ dto.gauges.entries, Agent.isFinite e.2 = true

theorem served_round (round : Agent.ScrapeRound Agent.F64) : Served (.from (some round)) where
  interval := by
    rintro secs ⟨⟩
    exact interval_lt round
  gauges dto hdto := by
    obtain ⟨named, -, rfl⟩ := List.mem_map.mp hdto
    exact finite_gauges named

/-- A poll response arrives as it was sent. -/
theorem decode_response {json : Format}
    (hjson : ∀ response, Served response → json.decode (json.encode response.datum) =
      some response.datum)
    (round : Agent.ScrapeRound Agent.F64) :
    Hub.Applications.decodeResponse json (Agent.ApplicationsResponse.encode json (some round)) =
      some (responseDto (.from (some round))) := by
  rw [Hub.Applications.decodeResponse, Agent.ApplicationsResponse.encode,
    hjson _ (served_round round), Option.bind_some, read_responseDto]

theorem decode_mailReport {msgpack : Format} (hmsgpack : msgpack.Carries Scalar.Sized)
    (report : Agent.MailReport) :
    Hub.MailIntake.decodeDto msgpack (report.encode msgpack) = some (mailReportDto report) := by
  rw [Hub.MailIntake.decodeDto, Agent.MailReport.encode, hmsgpack _ (sized_mailReportDto report),
    Option.bind_some, read_mailReportDto]

variable {crate : Agent.UrlCrate} {lookup : Agent.Lookup} {apps : Agent.Applications crate}

/-- A round built from an accepted configuration reaches the hub as one and the same round in a
frame, in a poll response and in a mail report, never refused: the agent's run and seq, its
interval, its names in the configured order, and every health, version and gauge as the agent had
it. -/
theorem round_same_on_every_transport
    (hconfig : Agent.ApplicationsConfig.parse crate lookup = .ok (.on apps))
    (ops : Agent.F64Ops Agent.F64)
    (scrapes : List (Agent.ApplicationTarget crate → Agent.RawScrape Agent.F64 × ℕ))
    (scraper : Agent.ApplicationTarget crate → Agent.RawScrape Agent.F64 × ℕ) (id : Agent.RoundId)
    (scrapedAt : UInt64) {msgpack json : Format} (hmsgpack : msgpack.Carries Scalar.Sized)
    (hjson : ∀ response, Served response → json.decode (json.encode response.datum) =
      some response.datum)
    {tryParse : String → Option Uuid}
    (htryParse : ∀ u : Uuid, tryParse u.hyphenated = some u) :
    ∃ r : Hub.Applications.ScrapeRound,
      (Hub.Applications.decode msgpack (Agent.ApplicationFrame.encode msgpack
          (Agent.roundAfter ops apps scrapes scraper id scrapedAt))).map
        (Hub.Applications.ScrapeRound.tryFrom tryParse) = some (.ok r) ∧
      (Hub.Applications.decodeResponse json (Agent.ApplicationsResponse.encode json
          (some (Agent.roundAfter ops apps scrapes scraper id scrapedAt)))).map
        (Hub.Applications.PolledRound.tryFrom tryParse) = some (.ok (.round r)) ∧
      (∀ report : Agent.MailReport, report.round = some
        (Agent.roundAfter ops apps scrapes scraper id scrapedAt) →
        ∃ dto frame, Hub.MailIntake.decodeDto msgpack (report.encode msgpack) = some dto ∧
          dto.round = some frame ∧ Hub.Applications.ScrapeRound.tryFrom tryParse frame = .ok r) ∧
      r.id = ⟨id.run.uuid, id.seq.toNat⟩ ∧
      r.content.interval.secs = apps.interval.secs ∧
      r.content.applications.map (fun app => app.name.text) =
        apps.targets.map (fun target => target.name.text) ∧
      List.Forall₂ SameReport (Agent.roundAfter ops apps scrapes scraper id scrapedAt).applications
        r.content.applications := by
  obtain ⟨hfew, hdistinct⟩ := parse_spec hconfig
  have hnames : (Agent.roundAfter ops apps scrapes scraper id scrapedAt).applications.map
      Agent.NamedReport.name = apps.targets.map Agent.ApplicationTarget.name := by
    rw [Agent.roundAfter, scrapeRound_names, watchedAfter_targets]
  generalize hround : Agent.roundAfter ops apps scrapes scraper id scrapedAt = round at hnames
  have hid : round.id = id := by rw [← hround]; rfl
  have hinterval : round.interval = apps.interval := by rw [← hround]; rfl
  have hlength : round.applications.length ≤ 16 := by
    rw [← List.length_map Agent.NamedReport.name, hnames, List.length_map]
    exact hfew
  obtain ⟨r, hbuild, hrid, hrinterval, hsame⟩ :=
    buildRound_ok tryParse htryParse hlength (hnames ▸ hdistinct)
  refine ⟨r, ?_, ?_, ?_, ?_, ?_, ?_, hsame⟩
  · rw [decode_frame hmsgpack, Option.map_some, tryFrom_frame hbuild]
  · rw [decode_response hjson, Option.map_some, tryFrom_response hbuild]
  · intro report hreport
    refine ⟨mailReportDto report, frameDto (.from round), decode_mailReport hmsgpack report, ?_,
      tryFrom_frame hbuild⟩
    rw [mailReportDto, hreport]
    rfl
  · rw [hrid, hid]
  · rw [hrinterval, hinterval]
  · rw [names_of_same hsame, hnames, List.map_map]
    rfl

/-- URLs as they are written, all of them plain `http` ones. -/
def plainCrate : Agent.UrlCrate where
  Url := String
  parse := some
  scheme _ := "http"
  username _ := ""
  password _ := none
  query _ := none
  fragment _ := none
  path url := url
  setPath _ path := path

/-- Two applications, and no interval. -/
def twoApplications : Agent.Lookup := fun name =>
  if name = "SPRING_BOOT_APPS" then .ok " orders = http://a ,Billing=http://b"
    else .error .notPresent

/-- No arithmetic: every rate is zero. -/
def zeroOps : Agent.F64Ops Agent.F64 where
  zero := 0#64
  hundred := 0#64
  thousand := 0#64
  sub _ _ := 0#64
  mul _ _ := 0#64
  div _ _ := 0#64
  max _ _ := 0#64
  lt _ _ := false
  le _ _ := true
  ofU32 _ := 0#64
  ofNanos _ := 0#64

/-- The first one answers with its version and a gauge, the second one doesn't. -/
def oneAnswers (target : Agent.ApplicationTarget plainCrate) : Agent.RawScrape Agent.F64 × ℕ :=
  if target.name.text = "orders" then
    (.reached {
      health := .up
      version := some "1.4.2"
      meters := {
        heapUsed := .notPublished
        heapMax := .notPublished
        cpuUsage := .notPublished
        liveThreads := .published 0x4028000000000000#64
        gcPauseSeconds := .notPublished
        httpRequests := .notPublished
        httpServerErrors := .notPublished
        dbConnectionsActive := .notPublished
        uptimeSeconds := .unavailable }
      ownRequests := 0 }, 0)
  else (.unreachable .timeout, 0)

/-- Their round. -/
def answered (apps : Agent.Applications plainCrate) : Agent.ScrapeRound Agent.F64 :=
  Agent.roundAfter zeroOps apps [] oneAnswers ⟨⟨⟨7⟩⟩, 3⟩ 100

/-- The response to a poll. -/
def servedDatum : Datum :=
  .map [
    ("round", .map [("run", .text "00000000-0000-0000-0000-000000000007"), ("seq", .nat 3)]),
    ("interval_secs", .nat 15),
    ("scraped_at", .nat 100),
    ("applications", .seq [
      .map [("name", .text "orders"), ("health", .text "up"), ("version", .text "1.4.2"),
        ("gauges", .map [("live_threads", .float64 0x4028000000000000#64)])],
      .map [("name", .text "Billing"), ("health", .text "unreachable"), ("version", .null),
        ("gauges", .map [])]])]

theorem sized_servedDatum : servedDatum.All Scalar.Sized := by
  have htext : ∀ s, (Datum.text s).All Scalar.Sized := fun _ => .scalar trivial
  have hnat : ∀ n < 2 ^ 64, (Datum.nat n).All Scalar.Sized := fun _ hn => .scalar hn
  refine .map ?_
  simp only [List.forall_mem_cons]
  refine ⟨.map ?_, hnat _ (by norm_num), hnat _ (by norm_num), .seq ?_, by simp⟩
  · simp only [List.forall_mem_cons]
    exact ⟨htext _, hnat _ (by norm_num), by simp⟩
  · simp only [List.forall_mem_cons]
    refine ⟨.map ?_, .map ?_, by simp⟩
    · simp only [List.forall_mem_cons]
      exact ⟨htext _, htext _, htext _, .map (by simpa using .scalar trivial), by simp⟩
    · simp only [List.forall_mem_cons]
      exact ⟨htext _, htext _, .scalar trivial, .map (by simp), by simp⟩

/-- It in JSON, after the first brace. -/
def servedText : String :=
  "\"round\":\x7b\"run\":\"00000000-0000-0000-0000-000000000007\",\"seq\":3\x7d," ++
    "\"interval_secs\":15,\"scraped_at\":100,\"applications\":[" ++
    "\x7b\"name\":\"orders\",\"health\":\"up\",\"version\":\"1.4.2\"," ++
    "\"gauges\":\x7b\"live_threads\":12.0\x7d\x7d," ++
    "\x7b\"name\":\"Billing\",\"health\":\"unreachable\"," ++
    "\"version\":null,\"gauges\":\x7b\x7d\x7d]\x7d"

theorem fiveMinutes_inRange : 60 ≤ 300 ∧ 300 ≤ 86400 := by decide

/-- A mail report with the round. -/
def mailedRound (apps : Agent.Applications plainCrate) : Agent.MailReport where
  id := ⟨⟨⟨7⟩⟩, 1⟩
  createdAt := 100
  interval := ⟨300, fiveMinutes_inRange⟩
  reason := .scheduled
  snapshots := []
  alerts := []
  round := some (answered apps)

set_option synthInstance.maxSize 256 in
theorem round_same_on_every_transport_two :
    ∃ apps, Agent.ApplicationsConfig.parse plainCrate twoApplications = .ok (.on apps) ∧
      Agent.ApplicationsResponse.encode (spelled servedDatum (0x7b :: utf8 servedText))
        (some (answered apps)) = 0x7b :: utf8 servedText ∧
      ∃ r : Hub.Applications.ScrapeRound,
        (Hub.Applications.decode packed (Agent.ApplicationFrame.encode packed (answered apps))).map
          (Hub.Applications.ScrapeRound.tryFrom Uuid.ofHyphenated) = some (.ok r) ∧
        (Hub.Applications.decodeResponse (spelled servedDatum (0x7b :: utf8 servedText))
            (0x7b :: utf8 servedText)).map
              (Hub.Applications.PolledRound.tryFrom Uuid.ofHyphenated) =
          some (.ok (.round r)) ∧
        (∃ dto frame, Hub.MailIntake.decodeDto packed
          ((mailedRound apps).encode packed) = some dto ∧
          dto.round = some frame ∧ Hub.Applications.ScrapeRound.tryFrom
            Uuid.ofHyphenated frame = .ok r) ∧
        r.id = ⟨⟨7⟩, 3⟩ ∧
        r.content.applications.map (fun app => (app.name.text, app.health,
            app.version.map Hub.Applications.ApplicationVersion.text,
            app.gauges.entries.map fun e => (e.1.wireName, e.2))) =
          [("orders", .up, some "1.4.2", [("live_threads", 0x4028000000000000#64)]),
            ("Billing", .unreachable, none, [])] := by
  have hdatum : (Agent.ApplicationsConfig.parse plainCrate twoApplications).map (fun config =>
      match config with
      | .on apps => pack (Agent.ApplicationsResponse.from (some (answered apps))).datum
      | .off => []) = .ok (pack servedDatum) := by
    decide +kernel
  have hreports : (Agent.ApplicationsConfig.parse plainCrate twoApplications).map (fun config =>
      match config with
      | .on apps => (answered apps).applications.map fun named =>
          (named.name.text, healthOf named.report.health, versionOf named.report,
            gaugesOf named.report)
      | .off => []) = .ok [("orders", .up, some "1.4.2", [("live_threads", 0x4028000000000000#64)]),
        ("Billing", .unreachable, none, [])] := by
    decide +kernel
  cases hconfig : Agent.ApplicationsConfig.parse plainCrate twoApplications with
  | error e =>
      rw [hconfig] at hdatum
      cases hdatum
  | ok config =>
      rw [hconfig] at hdatum hreports
      cases config with
      | off => cases hreports
      | on apps =>
          have hencoded : Agent.ApplicationsResponse.encode
              (spelled servedDatum (0x7b :: utf8 servedText))
              (some (answered apps)) = 0x7b :: utf8 servedText :=
                spelled_encode (Except.ok.inj hdatum) _
          have hjson : ∀ response, Served response →
              (spelled servedDatum (0x7b :: utf8 servedText)).decode
                ((spelled servedDatum (0x7b :: utf8 servedText)).encode response.datum) =
                  some response.datum :=
            fun response hresponse => spelled_carries sized_servedDatum (by decide) _ _
              (all_responseDto Scalar.plain_sized hresponse.interval fun _ _ _ _ => trivial)
          obtain ⟨r, hpushed, hpolled, hmailed, hid, -, -, hsame⟩ :=
            round_same_on_every_transport hconfig zeroOps []
            oneAnswers ⟨⟨⟨7⟩⟩, 3⟩ 100 packed_carries hjson Uuid.ofHyphenated_hyphenated
          refine ⟨apps, rfl, hencoded, r, hpushed, ?_, hmailed (mailedRound apps) rfl, hid, ?_⟩
          · change (Hub.Applications.decodeResponse _ (Agent.ApplicationsResponse.encode _
              (some (answered apps)))).map _ = _ at hpolled
            rwa [hencoded] at hpolled
          · rw [said_of_same hsame]
            exact Except.ok.inj hreports

end Transports

end MonitoringAgent.Wire
